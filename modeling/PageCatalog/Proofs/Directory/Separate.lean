import Mathlib.Tactic
import PageCatalog.Proofs.Directory.Operations
import PageCatalog.Proofs.Store.Saving
import PageCatalog.Proofs.Store.Separate

/-!
Caches that know nothing of each other.

All caches of a store stand in one table and are flushed together, and the ids of pages are the
same in all of them. Nevertheless what is done in a cache cannot be told from any other one:
neither when it is done, nor by any answer later, nor after the store was opened again.

* `Session.On`: what can be done in a cache.
* `On.minds`, `On.beside`, `On.paired`: what it is to other caches, and to the cache itself.
* `CacheEvent`: what happens to a store; `CacheEvent.answers`: the answers in one cache.
* `CacheEvent.separate`: the answers in a cache are those of the run without another one.
-/

namespace PageCatalog

namespace Session

variable {δ : Type} [Device δ]

/-! ### What is done in a cache -/

/-- The operations on the pages, the trees and the directory of a cache. -/
inductive On (c : CacheId) : {α : Type} → SessionM δ α → Prop
  | pageCount : On c (pageCount c)
  | freedCount : On c (freedCount c)
  | allocate (partition : UInt16) (space : Space) : On c (allocate c partition space)
  | free (id : PageId) : On c (free c id)
  | view {α : Type} (id : PageId) (f : Page → Except Failure α) : On c (view c id f)
  | edit {α : Type} (id : PageId) {m : PageM α} (hm : m.Steady) : On c (edit c id m)
  | rewrite (i : ℕ) {f : Page → Page} (hf : ∀ p, (f p).size = p.size) : On c (rewrite c i f)
  | make {ρ : Type} {t : Tree ρ} (ht : t.cache = c) (fresh? : Option Bool) : On c (t.start fresh?)
  | level {ρ : Type} {t : Tree ρ} (ht : t.cache = c) : On c t.level
  | find {ρ : Type} {t : Tree ρ} (ht : t.cache = c) (row : ρ) : On c (t.find? row)
  | put {ρ : Type} {t : Tree ρ} (ht : t.cache = c) (hR : t.rows.Steady) (row : ρ) : On c (t.put row)
  | remove {ρ : Type} {t : Tree ρ} (ht : t.cache = c) (row : ρ) : On c (t.remove row)
  | walk {ρ β : Type} {t : Tree ρ} (ht : t.cache = c) (visit : β → ρ → Except Error β) (b : β)
      (depth : ℕ) : On c (t.walk visit b depth)
  | list {ρ : Type} {t : Tree ρ} (ht : t.cache = c) : On c t.toList
  | count {ρ : Type} {t : Tree ρ} (ht : t.cache = c) : On c t.size
  | scan {ρ : Type} {t : Tree ρ} (ht : t.cache = c) (limit : ℕ) : On c (t.scan limit)
  | start : On c (Directory.start c)
  | call {d : Directory} (hd : d.cache = c) (call : DirectoryCall) : On c (call.step d)

variable {c c' : CacheId} {α : Type}

/-- An operation is built from calls for pages, or it goes through an old pin. -/
lemma On.rec_within {P : {α : Type} → SessionM δ α → Prop} {m : SessionM δ α} (h : On c m)
    (hwithin : ∀ {α : Type} {m : SessionM δ α}, Within c m → P m)
    (hrewrite : ∀ (i : ℕ) (f : Page → Page), (∀ p, (f p).size = p.size) →
      P (Session.rewrite c i f : SessionM δ Unit)) : P m := by
  cases h with
  | pageCount => exact hwithin .pageCount
  | freedCount => exact hwithin .freedCount
  | allocate partition space => exact hwithin (.allocate partition space)
  | free id => exact hwithin (.free id)
  | view id f => exact hwithin (.view id f)
  | edit id hm => exact hwithin (.edit id hm)
  | rewrite i hf => exact hrewrite i _ hf
  | make ht fresh? => exact hwithin (ht ▸ Tree.start_within fresh?)
  | level ht => exact hwithin (ht ▸ Tree.level_within _)
  | find ht row => exact hwithin (ht ▸ Tree.find?_within _ row)
  | put ht hR row => exact hwithin (ht ▸ Tree.put_within hR row)
  | remove ht row => exact hwithin (ht ▸ Tree.remove_within row)
  | walk ht visit b depth => exact hwithin (ht ▸ Tree.walk_within _ visit b depth)
  | list ht => exact hwithin (ht ▸ Tree.toList_within _)
  | count ht => exact hwithin (ht ▸ Tree.size_within _)
  | scan ht limit => exact hwithin (ht ▸ Tree.scan_within _ limit)
  | start => exact hwithin (Directory.start_within c)
  | call hd call => exact hwithin (hd ▸ Directory.step_within _ call)

omit [Device δ] in
/-- A change through an old pin changes the frame, if there is one. -/
lemma rewrite_run (c : CacheId) (i : ℕ) (f : Page → Page) (s : Session δ) :
    rewrite c i f s = (.ok (), match (s.store.caches[c]?).bind (·.frames[i]?) with
      | some g => s.withFrame c i { g with bytes := f g.bytes, dirty := true }
      | none => s) := by
  rw [rewrite, run_bind_ok (run_get s)]
  cases (s.store.caches[c]?).bind (·.frames[i]?) with
  | none => rfl
  | some g => exact putFrame_run c i _ s

/-! ### What it is to other caches -/

/-- No other cache has changed, and no file. -/
theorem On.minds {m : SessionM δ α} (h : On c m) {A : Device.Account δ} {s : Session δ}
    (hs : A.Honest s.device) : s.Minds A c (m s).2 := by
  refine h.rec_within (P := fun m => s.Minds A c (m s).2) (fun hm => hm.minds hs) fun i f _ => ?_
  rw [rewrite_run]
  split
  · exact (Minds.refl hs).modify _
  · exact .refl hs

variable {s t : Session MemoryDisk} {m : SessionM MemoryDisk α}

/-- No file of another cache has changed. -/
lemma On.beside (h : On c m) (s : Session MemoryDisk) : s.Beside c (m s).2 := by
  refine h.rec_within (P := fun m => s.Beside c (m s).2) (fun hm => hm.beside s) fun i f _ => ?_
  rw [rewrite_run]
  split
  · refine (Beside.refl s).modify ?_
    exact fun _ => rfl
  · exact .refl s

/-- It answers alike where sessions agree on the cache. -/
lemma On.paired (h : On c m) : Alike (Paired c) m := by
  refine h.rec_within (P := fun m => Alike (Paired c) m) (fun hm => hm.paired) fun i f _ s t hst => ?_
  rw [rewrite_run, rewrite_run, hst.cache]
  refine ⟨rfl, ?_⟩
  split
  · exact hst.withFrame _ _
  · exact hst

end Session

/-! ### Runs -/

open Session

/-- What happens to a store. -/
inductive CacheEvent : Type 1 where
  /-- Something is done in a cache. -/
  | on (c : CacheId) {α : Type} (m : SessionM MemoryDisk α) (h : On c m)
  | flush
  /-- The store is opened again. -/
  | reopen (options : Options)

namespace CacheEvent

variable {a b c : CacheId} {s t : Session MemoryDisk}

def step : CacheEvent → Session MemoryDisk → Session MemoryDisk
  | on _ m _, s => (m s).2
  | flush, s => (Session.flush s).2
  | reopen options, s => s.reopen options

/-- Something is done in the cache. -/
def IsOn (c : CacheId) : CacheEvent → Bool
  | on c' _ _ => c' = c
  | _ => false

/-- The answer in a cache. A flush answers in all of them. -/
def answer (c : CacheId) : CacheEvent → Session MemoryDisk → List (Σ α : Type, Except Failure α)
  | on c' m _, s => if c' = c then [⟨_, (m s).1⟩] else []
  | flush, s => [⟨_, (Session.flush s).1⟩]
  | reopen _, _ => []

/-- The answers in a cache to what happens. -/
def answers (c : CacheId) : List CacheEvent → Session MemoryDisk → List (Σ α : Type, Except Failure α)
  | [], _ => []
  | e :: rest, s => e.answer c s ++ answers c rest (e.step s)

/-- What is done in another cache is not seen, and has no answer. -/
lemma paired_of_isOn {e : CacheEvent} (he : e.IsOn a = true) (hab : a ≠ b) (hst : Paired b s t) :
    e.answer b s = [] ∧ Paired b (e.step s) t := by
  cases e with
  | on c m h =>
      obtain rfl : c = a := of_decide_eq_true he
      exact ⟨if_neg hab, ((h.beside s).paired hst.left hab.symm).symm.trans hst⟩
  | flush => cases he
  | reopen options => cases he

/-- Whatever happens is answered alike in a cache, where sessions agree on it. -/
lemma step_paired (e : CacheEvent) (hst : Paired b s t) :
    e.answer b s = e.answer b t ∧ Paired b (e.step s) (e.step t) := by
  cases e with
  | on c m h =>
      by_cases hc : c = b
      · subst hc
        obtain ⟨hanswer, hafter⟩ := h.paired s t hst
        exact ⟨by rw [answer, answer, hanswer], hafter⟩
      · have hs := (h.beside s).paired hst.left (Ne.symm hc)
        have ht := (h.beside t).paired hst.right (Ne.symm hc)
        exact ⟨(if_neg hc).trans (if_neg hc).symm, (hs.symm.trans hst).trans ht⟩
  | flush =>
      obtain ⟨hs, hafter⟩ := flush_paired hst
      obtain ⟨ht, -⟩ := flush_paired (Paired.refl (c := b) hst.right)
      exact ⟨by rw [answer, answer, hs, ht], hafter⟩
  | reopen options => exact ⟨rfl, reopen_paired hst options⟩

/-- The answers in a cache, where sessions agree on it, are those without what is done in
another one. -/
lemma answers_paired (hab : a ≠ b) (events : List CacheEvent) (hst : Paired b s t) :
    answers b events s = answers b (events.filter fun e => !e.IsOn a) t := by
  induction events generalizing s t with
  | nil => rfl
  | cons e rest ih =>
      by_cases he : e.IsOn a = true
      · obtain ⟨hanswer, hafter⟩ := paired_of_isOn he hab hst
        rw [List.filter_cons_of_neg (by rw [he]; decide), answers, hanswer, List.nil_append]
        exact ih hafter
      · obtain ⟨hanswer, hafter⟩ := e.step_paired hst
        rw [List.filter_cons_of_pos (by simpa using he), answers, answers, hanswer, ih hafter]

/-- Whatever is done in a cache, another one keeps its pages, those that were freed among them,
and its file. So the answers in a cache do not tell what is done in another one, even when the
store is flushed and opened again. -/
theorem separate (hab : a ≠ b) :
    (∀ {δ : Type} [Device δ] (A : Device.Account δ) (s : Session δ), A.Honest s.device →
      ∀ {α : Type} (m : SessionM δ α), On a m →
        s.Same A b (m s).2 ∧ (m s).2.array A b = s.array A b) ∧
    ∀ {folder : String} {options : Options} {disk disk' : MemoryDisk} {store : PageStore},
      Session.start folder options disk = (.ok store, disk') → ∀ events : List CacheEvent,
        answers b events ⟨disk', store⟩
          = answers b (events.filter fun e => !e.IsOn a) ⟨disk', store⟩ := by
  refine ⟨fun A s hs α m hm => ?_, fun hstart events => ?_⟩
  · have hsame := (hm.minds hs).same hab.symm
    exact ⟨hsame, hsame.array⟩
  · exact answers_paired hab events (.refl (placed_of_start hstart))

/-- Two directories in one store, with a flush and a second session. -/
def twoDirectories : List CacheEvent :=
  [.on 1 _ .start, .on 2 _ .start, .on 1 _ (.call (d := ⟨1⟩) rfl (.obtain "a")),
    .on 2 _ (.call (d := ⟨2⟩) rfl (.obtain "b")), .flush, .reopen { pageSize := 512 },
    .on 1 _ (.call (d := ⟨1⟩) rfl (.drop "a")), .on 2 _ (.call (d := ⟨2⟩) rfl (.obtain "a")),
    .on 2 _ (.call (d := ⟨2⟩) rfl .names)]

/-- Of two directories with the same names, the one is as if there were not the other. -/
theorem separate_of_twoDirectories : (1 : CacheId) ≠ 2 ∧
    answers 2 twoDirectories Session.blank
      = answers 2 [.on 2 _ .start, .on 2 _ (.call (d := ⟨2⟩) rfl (.obtain "b")), .flush,
          .reopen { pageSize := 512 }, .on 2 _ (.call (d := ⟨2⟩) rfl (.obtain "a")),
          .on 2 _ (.call (d := ⟨2⟩) rfl .names)] Session.blank ∧
      (Session.allocate 1 0 .index Session.blank).2.array MemoryDisk.account 2
        = Session.blank.array MemoryDisk.account 2 :=
  ⟨by decide, (separate (a := 1) (b := 2) (by decide)).2 Session.blank_start twoDirectories,
    ((separate (a := 1) (b := 2) (by decide)).1 MemoryDisk.account Session.blank trivial _
      (.allocate 0 .index)).2⟩

end CacheEvent

end PageCatalog
