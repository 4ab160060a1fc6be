import Mathlib.Tactic
import PageCatalog.Proofs.Directory.Pages
import PageCatalog.Proofs.Store.Saving
import PageCatalog.Proofs.Store.Shown

/-!
A directory that is opened again.

How many pages a cache has is not written down anywhere, nor which of them are freed: the next
session has the length of the file and the meta page to go by. All pages of a cache that were
written to its file are shown by the next session, so that it holds the directory that was
held before.

* `Session.shows_reopened`: the pages that the next session shows.
* `Session.Within.ready`: a device that serves goes on to serve.
* `Directory.start_opened`: opening a directory opens its cache first.
* `Directory.Held.start_ends`: a directory that is there is taken over.
* `Directory.start_blank`: a directory that is made in an empty file.
-/

namespace PageCatalog

/-! ### Pages -/

lemma Bytes.toNat_zeros (n : ℕ) : Bytes.toNat (List.replicate n 0) = 0 := by
  induction n with
  | zero => rfl
  | succ n ih => rwa [List.replicate_succ, toNat, List.foldl_cons]

/-- A page of zeros leads nowhere. -/
lemma MetaPage.root_zeros {size : ℕ} (hsize : 8 ≤ size) : MetaPage.root (.zeros size) = .ok ⟨0⟩ := by
  have hregion : (Page.zeros size).region 0 8 = List.replicate 8 0 := by
    rw [Page.region, Page.bytes_zeros, List.drop_zero, List.take_replicate, Nat.min_eq_left hsize]
  rw [MetaPage.root, Page.pageId_region (by rwa [Page.size_zeros]), hregion, Bytes.toNat_zeros]
  rfl

namespace Session

variable {δ : Type} [Device δ] {A : Device.Account δ} {folder : String} {own : Set String}
  {V : A.Service folder own} {c : CacheId}
  {s s₁ : Session δ} {k : CacheFile}

/-- An open cache has as many pages as the array that it is. -/
lemma next?_array (hk : s.store.caches[c]? = some k) : s.next? c = some (s.array A c).count := by
  rw [next?, hk, array_open hk]
  rfl

/-- A cache that is opened over a file that all its pages were written to shows them all. -/
lemma shows_reopened (hs : s.Backed A c) (hclean : ∀ i, s.Clean c i) (hopen : c ∈ s.store.caches)
    (hfew : (s.file A c).length < 0x100000000 * s.size) (hs₁ : s₁.Backed A c)
    (hready : V.Ready s₁.device) (hk : s₁.store.caches[c]? = some k)
    (harray : s₁.array A c = .ofFile (s.file A c) s.size) :
    s₁.next? c = s.next? c ∧
      ∀ i p, s.Shows (.served V) c i p → s₁.Shows (.served V) c i p := by
  obtain ⟨-, hpages, hcount⟩ := ofFile_of_clean hs hclean hopen (.refl _ _)
  rw [recount, if_pos hfew, ← harray] at hcount
  refine ⟨?_, fun i p hp => ?_⟩
  · obtain ⟨k', hk'⟩ := Option.isSome_iff_exists.mp (Std.TreeMap.mem_iff_isSome_getElem?.mp hopen)
    rw [next?_array hk, next?_array hk', hcount]
  · obtain ⟨hhas, rfl⟩ := hp.has hs
    have hhas₁ : (s₁.array A c).Has i :=
      ⟨hcount ▸ hhas.1, by rw [harray]; exact Finset.notMem_empty i⟩
    have hshows := shows_of_has hs₁ hready hk hhas₁
    rw [harray] at hshows
    rwa [hpages]

/-- A cache that is opened over an empty file shows a page of zeros. -/
lemma shows_zeros (hs : s.Backed A c) (hready : V.Ready s.device) (hk : s.store.caches[c]? = some k)
    (harray : s.array A c = .ofFile [] s.size) :
    s.next? c = some 1 ∧ s.Shows (.served V) c 0 (.zeros s.size) := by
  have hcount : (s.array A c).count = 1 := by
    rw [harray]
    change max (0 / s.size) 1 % 0x100000000 = 1
    rw [Nat.zero_div]
    rfl
  refine ⟨by rw [next?_array hk, hcount], ?_⟩
  have hshows := shows_of_has hs hready hk (i := 0)
    ⟨by omega, by rw [harray]; exact Finset.notMem_empty 0⟩
  rw [harray] at hshows
  rwa [show (PageArray.ofFile [] s.size).page 0 = .zeros s.size from
    Bytes.pageAt_of_length_le (Nat.zero_le _)] at hshows

/-- A device that serves goes on to serve the calls for the pages of an open cache. -/
lemma Within.ready {α : Type} {m : SessionM δ α} (hm : Within c m) (hhonest : A.Honest s.device)
    (hready : V.Ready s.device) (hopen : c ∈ s.store.caches) : V.Ready (m s).2.device := by
  let Serving (s : Session δ) : Prop := A.Honest s.device ∧ V.Ready s.device ∧ c ∈ s.store.caches
  have hparts : Parts c fun s s' => Serving s → Serving s' :=
    { refl := fun _ h => h
      trans := fun h h' hs => h' (h hs)
      cacheFile := fun s ⟨hhonest, hready, hopen⟩ => by
        obtain ⟨k, hk⟩ := Option.isSome_iff_exists.mp (Std.TreeMap.mem_iff_isSome_getElem?.mp hopen)
        rw [cacheFile_open hk]
        exact ⟨hhonest, hready, hopen⟩
      load := fun path i s ⟨hhonest, hready, hopen⟩ =>
        Ends.result (P := fun _ s' => Serving s') ((load_ready hhonest hready path i).mono
          (fun _ _ h => ⟨h.1.stays.honest, h.2, h.1.store ▸ hopen⟩)
          fun _ _ h => ⟨h.1.stays.honest, h.2, h.1.store ▸ hopen⟩)
      modify := fun g _ s ⟨hhonest, hready, hopen⟩ =>
        ⟨hhonest, hready, Std.TreeMap.mem_modify.mpr hopen⟩ }
  exact (hm.keeps hparts.steps s ⟨hhonest, hready, hopen⟩).2.1

end Session

/-! ### Opening -/

namespace Directory

variable {δ : Type} [Device δ] {A : Device.Account δ} {folder : String} {own : Set String}
  {V : A.Service folder own} {B : Backing δ} {c : CacheId}
  {s s₁ : Session δ} {k : CacheFile} {D : DirectoryShape}

/-- The cache is opened before anything else is done. -/
lemma start_opened (hopen : Session.cacheFile c s = (.ok k, s₁)) (hk : s₁.store.caches[c]? = some k) :
    Directory.start c s = Directory.start c s₁ := by
  have hframe : Session.frame c .metaPage s = Session.frame c .metaPage s₁ := by
    rw [Session.frame, run_bind_ok hopen, run_bind_ok (Session.cacheFile_open hk)]
  have hroot : (⟨c⟩ : Directory).tree.root s = (⟨c⟩ : Directory).tree.root s₁ :=
    run_bind_of_eq hframe _
  exact run_bind_of_eq (run_bind_of_eq hroot _) _

/-- A directory that is there is opened without a change. -/
lemma Held.start_ends (h : (⟨c⟩ : Directory).Held B s D) :
    Ends (Directory.start c) s (fun d s' => d = ⟨c⟩ ∧ s.Quiet B c s') (fun e _ => B.Fails e) := by
  have hends := h.holds.recover_ends (tree_lawful ⟨c⟩)
  rw [Ends, ← h.holds.start_none] at hends
  exact Ends.bind (Ends.mono_error hends fun _ _ h => h.1) fun _ s' hquiet =>
    Ends.of_ok rfl ⟨rfl, hquiet⟩

/-- In an empty file a directory is made. -/
lemma start_blank (husual : 512 ≤ s.size ∧ s.size ≤ 65536) (hnext : s.next? c = some 1)
    (hzeros : s.Shows (.served V) c 0 (.zeros s.size)) :
    Ends (Directory.start c) s
      (fun d s' => d = ⟨c⟩ ∧ (⟨c⟩ : Directory).Held (.served V) s' (blankShape 1))
      (fun _ _ => False) := by
  have hroot : Ends ((⟨c⟩ : Directory).tree.root) s
      (fun root s₁ => root = ⟨0⟩ ∧ s.Quiet (.served V) c s₁ ∧ s₁.InMemory c 0 (.zeros s.size))
      (fun _ _ => False) :=
    (Session.view_ends hzeros (MetaPage.root_zeros (by omega))).mono_error
      fun e _ h => Backing.served_not_fails e h.1
  refine Ends.bind (Q := fun _ s' => (⟨c⟩ : Directory).Held (.served V) s' (blankShape 1)) ?_
    fun _ s' hheld => Ends.of_ok rfl ⟨rfl, hheld⟩
  refine hroot.bind ?_
  rintro _ s₁ ⟨rfl, hquiet, hmemory⟩
  rw [Option.getD_none, if_pos (by decide)]
  have hsize : s₁.size = s.size := hquiet.keeps.size
  have hnext₁ : s₁.next? c = some 1 := hquiet.next.trans hnext
  have hcreate := Tree.create_ends (t := (⟨c⟩ : Directory).tree) (tree_lawful ⟨c⟩) (by rwa [hsize]) hmemory
  refine hcreate.mono ?_ ?_
  · rintro - s' ⟨n, hn, hn', hT, -⟩
    obtain rfl : 1 = n := Option.some.inj (hnext₁.symm.trans hn)
    exact (held_blank hT hn').transport rfl hn' fun _ _ hp => (Session.shows_none.mp hp).shows
  · rintro - - (hlimit | hsmall)
    · exact absurd (hlimit 1 hnext₁) (by decide)
    · rw [Page.size_zeros] at hsmall
      omega

end Directory

end PageCatalog
