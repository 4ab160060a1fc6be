import Mathlib.Tactic
import PageCatalog.Proofs.Store.Serving

/-!
What a device that serves has of the pages of a cache.

Where the device serves, no page is refused on its account. The pages that a session shows
are then those of the array that the cache is.

* `Backing.served`: the account of a device that serves; `Backing.served_not_fails`.
* `Session.Shows.has`, `Session.shows_of_has`: the pages of an array.
-/

namespace PageCatalog

variable {δ α : Type} [Device δ] {A : Device.Account δ} {folder : String} {own : Set String}
  {V : A.Service folder own} {c : CacheId} {i : ℕ} {p : Page} {s s' : Session δ}

namespace Backing

/-- The account of a device that serves: the pages that stand in the files that were attached. -/
def served (V : A.Service folder own) : Backing δ where
  Has d path size i p := A.Honest d ∧ V.Ready d ∧ A.Present d path ∧
    Bytes.Uncut (A.bytes d path) size i ∧ p = Bytes.pageAt (A.bytes d path) size i
  load_ok := by
    rintro path i s s' p q ⟨hhonest, hready, hpath, huncut, rfl⟩ hload
    exact (Session.load_whole hhonest hready hpath i).ok hload huncut
  load_keeps := by
    rintro path i s s' r hload path' size j p ⟨hhonest, hready, hpath, huncut, rfl⟩
    have hend : s.Asks A s' ∧ V.Ready s'.device := by
      have hresult := (Session.load_ready hhonest hready path i).result
        (P := fun _ s' => s.Asks A s' ∧ V.Ready s'.device)
      rwa [hload] at hresult
    rw [← hend.1.stays.bytes] at huncut ⊢
    exact ⟨hend.1.stays.honest, hend.2, hend.1.stays.present hpath, huncut, rfl⟩

/-- No page that it has is refused. -/
lemma served_not_fails (e : Failure) : ¬ (served V).Fails e := by
  rintro ⟨path, i, s, s', p, ⟨hhonest, hready, hpath, -⟩, hload⟩
  exact (Session.load_whole hhonest hready hpath i).error hload

end Backing

namespace Session

/-- A page that is shown is one of the array that the cache is. -/
lemma Shows.has (h : s.Shows (.served V) c i p) (hs : s.Backed A c) :
    (s.array A c).Has i ∧ (s.array A c).page i = p := by
  obtain ⟨k, f, hk, hi, hf, hfreed, rfl⟩ | ⟨k, hk, hi, hnone, -, -, -, -, rfl⟩ := h
  · rw [array_open hk]
    refine ⟨⟨hi, fun hin => ?_⟩, CacheFile.page_of_frame hf⟩
    obtain ⟨g, hg, hgfreed⟩ := CacheFile.mem_freed.mp hin
    obtain rfl : f = g := Option.some.inj (hf.symm.trans hg)
    rw [hfreed] at hgfreed
    cases hgfreed
  · rw [array_open hk]
    refine ⟨⟨hi, fun hin => ?_⟩, by rw [CacheFile.page_of_none hnone, hs.path hk]; rfl⟩
    obtain ⟨g, hg, -⟩ := CacheFile.mem_freed.mp hin
    rw [hnone] at hg
    cases hg

/-- And an open cache shows all pages of its array, where the device serves. -/
lemma shows_of_has (hs : s.Backed A c) (hready : V.Ready s.device) {k : CacheFile}
    (hk : s.store.caches[c]? = some k) (hhas : (s.array A c).Has i) :
    s.Shows (.served V) c i ((s.array A c).page i) := by
  rw [array_open hk] at hhas ⊢
  cases hf : k.frames[i]? with
  | some f =>
      refine .inl ⟨k, f, hk, hhas.1, hf, ?_, (CacheFile.page_of_frame hf).symm⟩
      cases hfreed : f.freed with
      | false => rfl
      | true => exact absurd (CacheFile.mem_freed.mpr ⟨f, hf, hfreed⟩) hhas.2
  | none =>
      refine .inr ⟨k, hk, hhas.1, hf, hs.honest, hready, ?_, ?_, ?_⟩
      · rw [hs.path hk]
        exact hs.present hk
      · rw [hs.path hk]
        exact (hs.opened hk).not_cut hs.size_pos hf
      · rw [CacheFile.page_of_none hf, hs.path hk]
        rfl

end Session

end PageCatalog
