import Mathlib.Tactic
import PageCatalog.Store.Session
import PageCatalog.Proofs.Computation

/-!
What a session knows of the pages of a cache.

A page is in memory, or it has to be loaded and is then what the device holds. What
can be known of a device is left open: an account of it (`Backing`) says of some pages
what they are, and has to be right when a page is loaded. Nothing need be known at all,
for a tree whose pages are all in memory (`Backing.none`), and every account is part of
one of all that a device has to say (`Backing.steady`).

* `Backing.Fails`: the failures of pages that a device is said to have.
* `Session.InMemory`, `Session.Shows`: a page in memory, and a page in memory or on the
  device; `Session.Freed`: a page that was freed.
* `Session.Keeps`: pages outside a list show what they showed before.
* `Session.Quiet`: all pages do, and none is new.
* `Session.Released`: some pages have been freed, all but those of another list.
-/

namespace PageCatalog

/-- The failures that a device is the cause of. -/
def Failure.IsIo (e : Failure) : Prop := ∃ io, e = .error (.io io)

/-- An account of what a device holds: `Has d path size i p` says that page `i` of the
file, in pages of `size` bytes, is `p`. A page that is loaded is as the account has it,
and loading changes nothing. -/
structure Backing (δ : Type) [Device δ] where
  Has : δ → (path : String) → (size i : ℕ) → Page → Prop
  load_ok : ∀ {path : String} {i : ℕ} {s s' : Session δ} {p q : Page},
    Has s.device path s.store.options.pageSize i p → Session.load path i s = (.ok q, s') → q = p
  load_keeps : ∀ {path : String} {i : ℕ} {s s' : Session δ} {r : Except Failure Page},
    Session.load path i s = (r, s') → ∀ {path' : String} {size j : ℕ} {p : Page},
      Has s.device path' size j p → Has s'.device path' size j p

namespace Backing

variable {δ : Type} [Device δ]

/-- The account that knows nothing. -/
protected def none (δ : Type) [Device δ] : Backing δ where
  Has _ _ _ _ _ := False
  load_ok h _ := h.elim
  load_keeps _ _ _ _ _ h := h.elim

/-- The failures with which a page is refused although the account has it. -/
def Fails (B : Backing δ) (e : Failure) : Prop :=
  ∃ (path : String) (i : ℕ) (s s' : Session δ) (p : Page),
    B.Has s.device path s.store.options.pageSize i p ∧ Session.load path i s = (.error e, s')

/-- A page was loaded, or was not to be had, and the device went from one state to another. -/
def Loads (d d' : δ) : Prop :=
  ∃ (path : String) (i : ℕ) (s : Session δ) (r : Except Failure Page) (s' : Session δ),
    Session.load path i s = (r, s') ∧ s.device = d ∧ s'.device = d'

/-- The account of what a device says now and after any number of loads. -/
def steady (δ : Type) [Device δ] : Backing δ where
  Has d path size i p := ∀ (s : Session δ) (q : Page) (s' : Session δ),
    Relation.ReflTransGen Loads d s.device → s.store.options.pageSize = size →
      Session.load path i s = (.ok q, s') → q = p
  load_ok h hload := h _ _ _ .refl rfl hload
  load_keeps hload _ _ _ _ h := fun s q s' hloads =>
    h s q s' (hloads.head ⟨_, _, _, _, _, hload, rfl, rfl⟩)

/-- Whatever is known of a device is part of its steady account. -/
lemma has_steady (B : Backing δ) {d : δ} {path : String} {size i : ℕ} {p : Page}
    (h : B.Has d path size i p) : (steady δ).Has d path size i p := by
  rintro s q s' hloads rfl hload
  refine B.load_ok ?_ hload
  generalize s.device = e at hloads
  induction hloads with
  | refl => exact h
  | tail _ hlast ih =>
      obtain ⟨path', j, s₁, r, s₂, hload', rfl, rfl⟩ := hlast
      exact B.load_keeps hload' ih

end Backing

namespace Session

variable {δ : Type}

/-- The number of pages of an open cache. -/
def next? (s : Session δ) (c : CacheId) : Option ℕ := s.store.caches[c]?.map CacheFile.next

/-- The size of the pages. -/
abbrev size (s : Session δ) : ℕ := s.store.options.pageSize

/-- A page of an open cache is in memory. -/
def InMemory (s : Session δ) (c : CacheId) (i : ℕ) (p : Page) : Prop :=
  ∃ k f, s.store.caches[c]? = some k ∧ i < k.next ∧ k.frames[i]? = some f ∧ f.freed = false ∧
    f.bytes = p

lemma InMemory.lt {s : Session δ} {c : CacheId} {i : ℕ} {p : Page} (h : s.InMemory c i p) {n : ℕ}
    (hn : s.next? c = some n) : i < n := by
  obtain ⟨k, f, hk, hi, -⟩ := h
  rw [next?, hk] at hn
  cases hn
  exact hi

/-- A page of an open cache was freed. -/
def Freed (s : Session δ) (c : CacheId) (i : ℕ) : Prop :=
  ∃ k f, s.store.caches[c]? = some k ∧ i < k.next ∧ k.frames[i]? = some f ∧ f.freed = true

lemma Freed.lt {s : Session δ} {c : CacheId} {i : ℕ} (h : s.Freed c i) {n : ℕ}
    (hn : s.next? c = some n) : i < n := by
  obtain ⟨k, f, hk, hi, -⟩ := h
  rw [next?, hk] at hn
  cases hn
  exact hi

/-- A page in memory was not freed. -/
lemma InMemory.not_freed {s : Session δ} {c : CacheId} {i : ℕ} {p : Page} (h : s.InMemory c i p) :
    ¬ s.Freed c i := by
  rintro ⟨k', f', hk', -, hf', hfreed'⟩
  obtain ⟨k, f, hk, -, hf, hfreed, -⟩ := h
  obtain rfl : k = k' := Option.some.inj (hk.symm.trans hk')
  obtain rfl : f = f' := Option.some.inj (hf.symm.trans hf')
  rw [hfreed] at hfreed'
  cases hfreed'

/-- The pages of one list that are not in another one have been freed. -/
def Released (s : Session δ) (c : CacheId) (before after : List ℕ) : Prop :=
  ∀ i ∈ before, i ∉ after → s.Freed c i

lemma Released.refl (s : Session δ) (c : CacheId) (is : List ℕ) : s.Released c is is :=
  fun _ hi hout => absurd hi hout

/-- A page in memory is one page. -/
lemma InMemory.unique {s : Session δ} {c : CacheId} {i : ℕ} {p q : Page} (h : s.InMemory c i p)
    (h' : s.InMemory c i q) : p = q := by
  obtain ⟨k, f, hk, -, hf, -, rfl⟩ := h
  obtain ⟨k', f', hk', -, hf', -, rfl⟩ := h'
  obtain rfl : k = k' := Option.some.inj (hk.symm.trans hk')
  obtain rfl : f = f' := Option.some.inj (hf.symm.trans hf')
  rfl

variable [Device δ] (B : Backing δ)

/-- A page of an open cache is in memory, or the device has it. -/
def Shows (s : Session δ) (c : CacheId) (i : ℕ) (p : Page) : Prop :=
  s.InMemory c i p ∨ ∃ k, s.store.caches[c]? = some k ∧ i < k.next ∧ k.frames[i]? = none ∧
    B.Has s.device k.path s.size i p

/-- The pages of a cache outside a list show what they showed, those in memory stay there,
and those that are freed are the same. -/
structure Keeps (c : CacheId) (changed : List ℕ) (s s' : Session δ) : Prop where
  options : s'.store.options = s.store.options
  next_le : ∀ {n : ℕ}, s.next? c = some n → ∃ n', s'.next? c = some n' ∧ n ≤ n'
  memory : ∀ {i : ℕ} {p : Page}, i ∉ changed → s.InMemory c i p → s'.InMemory c i p
  shows : ∀ {i : ℕ} {p : Page}, i ∉ changed → s.Shows B c i p → s'.Shows B c i p
  freed : ∀ {n i : ℕ}, s.next? c = some n → i < n → i ∉ changed → s'.Freed c i → s.Freed c i
  still : ∀ {i : ℕ}, i ∉ changed → s.Freed c i → s'.Freed c i

/-- All pages of a cache show what they showed, and there is no new one. -/
structure Quiet (c : CacheId) (s s' : Session δ) : Prop where
  keeps : s.Keeps B c [] s'
  next : s'.next? c = s.next? c

variable {B} {c : CacheId} {changed changed' : List ℕ} {s s' s'' : Session δ} {i : ℕ} {p : Page}

lemma InMemory.shows (h : s.InMemory c i p) : s.Shows B c i p := .inl h

lemma Shows.lt (h : s.Shows B c i p) {n : ℕ} (hn : s.next? c = some n) : i < n := by
  obtain h | ⟨k, hk, hi, -⟩ := h
  · exact h.lt hn
  · rw [next?, hk] at hn
    cases hn
    exact hi

/-- A page that is shown was not freed. -/
lemma Shows.not_freed (h : s.Shows B c i p) : ¬ s.Freed c i := by
  obtain h | ⟨k, hk, -, hnone, -⟩ := h
  · exact h.not_freed
  · rintro ⟨k', f, hk', -, hf, -⟩
    obtain rfl : k = k' := Option.some.inj (hk.symm.trans hk')
    rw [hnone] at hf
    cases hf

/-- A page in memory is what is shown. -/
lemma InMemory.unique_of_shows (h : s.InMemory c i p) {q : Page} (h' : s.Shows B c i q) : p = q := by
  obtain h' | ⟨k', hk', -, hnone, -⟩ := h'
  · exact h.unique h'
  · obtain ⟨k, f, hk, -, hf, -⟩ := h
    obtain rfl : k = k' := Option.some.inj (hk.symm.trans hk')
    rw [hnone] at hf
    cases hf

/-- A page that is shown by some account is shown by the steady one. -/
lemma Shows.steady (h : s.Shows B c i p) : s.Shows (.steady δ) c i p := by
  refine h.imp_right ?_
  rintro ⟨k, hk, hi, hnone, hhas⟩
  exact ⟨k, hk, hi, hnone, B.has_steady hhas⟩

lemma shows_none : s.Shows (Backing.none δ) c i p ↔ s.InMemory c i p :=
  ⟨fun h => h.elim (fun h => h) fun ⟨_, _, _, _, h⟩ => h.elim, .inl⟩

lemma Keeps.refl (s : Session δ) : s.Keeps B c changed s :=
  ⟨rfl, fun hn => ⟨_, hn, le_rfl⟩, fun _ h => h, fun _ h => h, fun _ _ _ h => h, fun _ h => h⟩

lemma Keeps.mono (h : s.Keeps B c changed s') (hsub : ∀ i ∈ changed, i ∈ changed') :
    s.Keeps B c changed' s' :=
  ⟨h.options, h.next_le, fun hi => h.memory fun hin => hi (hsub _ hin),
    fun hi => h.shows fun hin => hi (hsub _ hin),
    fun hn hlt hi => h.freed hn hlt fun hin => hi (hsub _ hin),
    fun hi => h.still fun hin => hi (hsub _ hin)⟩

lemma Keeps.trans (h : s.Keeps B c changed s') (h' : s'.Keeps B c changed s'') :
    s.Keeps B c changed s'' := by
  refine ⟨h'.options.trans h.options, fun hn => ?_, fun hi hp => h'.memory hi (h.memory hi hp),
    fun hi hp => h'.shows hi (h.shows hi hp), fun hn hlt hi hfreed => ?_,
    fun hi hfreed => h'.still hi (h.still hi hfreed)⟩
  · obtain ⟨n', hn', hle⟩ := h.next_le hn
    obtain ⟨n'', hn'', hle'⟩ := h'.next_le hn'
    exact ⟨n'', hn'', hle.trans hle'⟩
  · obtain ⟨n', hn', hle⟩ := h.next_le hn
    exact h.freed hn hlt hi (h'.freed hn' (hlt.trans_le hle) hi hfreed)

lemma Keeps.size (h : s.Keeps B c changed s') : s'.size = s.size :=
  congrArg Options.pageSize h.options

lemma Quiet.refl (s : Session δ) : s.Quiet B c s := ⟨.refl s, rfl⟩

lemma Quiet.trans (h : s.Quiet B c s') (h' : s'.Quiet B c s'') : s.Quiet B c s'' :=
  ⟨h.keeps.trans h'.keeps, h'.next.trans h.next⟩

lemma Quiet.memory (h : s.Quiet B c s') (hp : s.InMemory c i p) : s'.InMemory c i p :=
  h.keeps.memory List.not_mem_nil hp

lemma Quiet.shows (h : s.Quiet B c s') (hp : s.Shows B c i p) : s'.Shows B c i p :=
  h.keeps.shows List.not_mem_nil hp

/-- Pages that are new since a session may change without its noticing. -/
lemma Keeps.fresh (h : s.Keeps B c changed s') {n : ℕ} (hn : s.next? c = some n)
    (h' : s'.Keeps B c changed' s'') (hnew : ∀ i ∈ changed', i ∈ changed ∨ n ≤ i) :
    s.Keeps B c changed s'' := by
  refine ⟨h'.options.trans h.options, fun hm => ?_, fun {i p} hi hp => ?_, fun {i p} hi hp => ?_,
    fun {m i} hm hlt hi hfreed => ?_, fun {i} hi hfreed => ?_⟩
  · obtain ⟨n', hn', hle⟩ := h.next_le hm
    obtain ⟨n'', hn'', hle'⟩ := h'.next_le hn'
    exact ⟨n'', hn'', hle.trans hle'⟩
  · have hlt := hp.lt hn
    exact h'.memory (fun hin => (hnew i hin).elim hi fun hle => by omega) (h.memory hi hp)
  · have hlt := hp.lt hn
    exact h'.shows (fun hin => (hnew i hin).elim hi fun hle => by omega) (h.shows hi hp)
  · obtain rfl : n = m := Option.some.inj (hn.symm.trans hm)
    obtain ⟨n', hn', hle⟩ := h.next_le hn
    have hold : i ∉ changed' := fun hin => (hnew i hin).elim hi fun hle => by omega
    exact h.freed hn hlt hi (h'.freed hn' (hlt.trans_le hle) hold hfreed)
  · have hlt := hfreed.lt hn
    exact h'.still (fun hin => (hnew i hin).elim hi fun hle => by omega) (h.still hi hfreed)

/-- Changes of a quiet session are changes of the session before. -/
lemma Quiet.then (h : s.Quiet B c s') (h' : s'.Keeps B c changed s'') :
    s.Keeps B c changed s'' :=
  (h.keeps.mono fun _ hin => absurd hin List.not_mem_nil).trans h'

/-- More pages are released while those that were released already stay so. -/
lemma Released.trans {before middle after : List ℕ} (h : s.Released c before middle)
    (h' : s'.Released c middle after) (hkeeps : s.Keeps B c changed s')
    (hchanged : ∀ i ∈ changed, s.Freed c i → i ∈ middle) : s'.Released c before after := by
  intro i hi hout
  by_cases hmiddle : i ∈ middle
  · exact h' i hmiddle hout
  · have hfreed := h i hi hmiddle
    exact hkeeps.still (fun hin => hmiddle (hchanged i hin hfreed)) hfreed

/-- Frames in the same places show the same pages. -/
lemma keeps_of_frames {k k' : CacheFile} (hk : s.store.caches[c]? = some k)
    (hk' : s'.store.caches[c]? = some k') (hdevice : s'.device = s.device)
    (hoptions : s'.store.options = s.store.options) (hpath : k'.path = k.path)
    (hnext : k.next ≤ k'.next)
    (hframes : ∀ i, i ∉ changed → i < k.next → k'.frames[i]? = k.frames[i]?) :
    s.Keeps B c changed s' := by
  have hmemory : ∀ {i p}, i ∉ changed → s.InMemory c i p → s'.InMemory c i p := by
    rintro i p hi ⟨k₁, f, hk₁, hlt, hf, hfreed, hbytes⟩
    obtain rfl : k = k₁ := Option.some.inj (hk.symm.trans hk₁)
    exact ⟨k', f, hk', by omega, by rw [hframes i hi hlt, hf], hfreed, hbytes⟩
  refine ⟨hoptions, fun hn => ?_, hmemory, ?_, fun hn hlt hi hfreed => ?_, fun hi hfreed => ?_⟩
  · rw [next?, hk] at hn
    cases hn
    exact ⟨k'.next, by rw [next?, hk']; rfl, hnext⟩
  · rintro i p hi (hp | ⟨k₁, hk₁, hlt, hf, hhas⟩)
    · exact (hmemory hi hp).shows
    · obtain rfl : k = k₁ := Option.some.inj (hk.symm.trans hk₁)
      refine .inr ⟨k', hk', by omega, by rw [hframes i hi hlt, hf], ?_⟩
      rwa [hdevice, hpath, Session.size, hoptions]
  · rw [next?, hk] at hn
    cases hn
    obtain ⟨k₁, f, hk₁, -, hf, hfreed⟩ := hfreed
    obtain rfl : k' = k₁ := Option.some.inj (hk'.symm.trans hk₁)
    exact ⟨k, f, hk, hlt, by rw [← hframes _ hi hlt, hf], hfreed⟩
  · obtain ⟨k₁, f, hk₁, hlt, hf, hfreed⟩ := hfreed
    obtain rfl : k = k₁ := Option.some.inj (hk.symm.trans hk₁)
    exact ⟨k', f, hk', by omega, by rw [hframes _ hi hlt, hf], hfreed⟩

end Session

end PageCatalog
