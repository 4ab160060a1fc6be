import Mathlib.Tactic
import PageCatalog.Proofs.Directory.Balance
import PageCatalog.Proofs.Store.Serving

/-!
The pages that a directory hands out.

Calls of a directory, flushes, and changes of the pages that it has handed out follow each
other as they like. Such a page holds what its owner has made of a page of zeros, until it is
dropped; a page that was dropped is out of reach, and the next flush leaves zeros in its
place. The directory answers as if its owners had changed nothing.

* `DirectoryEvent`: what happens; `Directory.through`, `Directory.handed`: a history.
* `Handed.Live`, `written`: pages that are their owners', and what these have made of them.
* `Directory.Tends`: the invariant; `Tends.call`, `Tends.write`, `Tends.answers`.
* `Directory.Solo`: the only cache of a store; `Solo.saved`, the freed pages in its file.
* `Directory.SparesPages`, `Directory.pages_of_events`: histories.
-/

namespace PageCatalog

/-! ### Events -/

/-- What happens to a directory and to its cache. -/
inductive DirectoryEvent where
  | call (call : DirectoryCall)
  | flush
  /-- Any change of the bytes of a page. -/
  | write (id : PageId) (f : Page → Page) (hf : ∀ p, (f p).size = p.size)

/-- The pages that a directory has handed out, those that it has handed out for a name, and the
indexes of those that were dropped. -/
structure Handed where
  returned : List PageId := []
  named : List (String × PageId) := []
  dropped : List ℕ := []

/-- The page that an answer gives for a name. -/
def DirectoryCall.named : DirectoryCall → Except Failure DirectoryAnswer → List (String × PageId)
  | obtain name, .ok (.root (some r)) => [(name, r.address.page)]
  | _, _ => []

namespace Handed

/-- A page was handed out and not dropped. -/
def Live (h : Handed) (id : PageId) : Prop := id ∈ h.returned ∧ id.index ∉ h.dropped

instance (h : Handed) (id : PageId) : Decidable (h.Live id) := inferInstanceAs (Decidable (_ ∧ _))

/-- The pages that are handed out after a call was answered. -/
def after (h : Handed) (call : DirectoryCall) (r : Except Failure DirectoryAnswer) : Handed :=
  ⟨h.returned ++ DirectoryAnswer.pages r, h.named ++ call.named r, h.dropped ++ call.dropped r⟩

end Handed

namespace DirectoryEvent

/-- What the writes among some events make of a page. -/
def written : List DirectoryEvent → PageId → Page → Page
  | [], _, p => p
  | write id' f _ :: rest, id, p => written rest id (if id' = id then f p else p)
  | _ :: rest, id, p => written rest id p

/-- An owner writes to its page. -/
def IsWrite : DirectoryEvent → Bool
  | write .. => true
  | _ => false

variable {δ : Type} [Device δ]

/-- What the program does. -/
def step (d : Directory) : DirectoryEvent → SessionM δ Unit
  | call c => discard (c.step d)
  | flush => Session.flush
  | write id f _ => Session.edit d.cache id (PageCall.overwriting f)

end DirectoryEvent

namespace Directory

open DirectoryEvent

variable {δ : Type} [Device δ]

/-- The session after some events. -/
def through (d : Directory) : List DirectoryEvent → Session δ → Session δ
  | [], s => s
  | e :: rest, s => d.through rest (e.step d s).2

/-- The pages that are handed out after some events. -/
def handed (d : Directory) : List DirectoryEvent → Session δ → Handed → Handed
  | [], _, h => h
  | .call c :: rest, s, h => d.handed rest (c.step d s).2 (h.after c (c.step d s).1)
  | e :: rest, s, h => d.handed rest (e.step d s).2 h

/-- Only pages are written that are handed out at the time. -/
def OwnersWrite (d : Directory) : List DirectoryEvent → Session δ → Handed → Prop
  | [], _, _ => True
  | .call c :: rest, s, h => d.OwnersWrite rest (c.step d s).2 (h.after c (c.step d s).1)
  | .flush :: rest, s, h => d.OwnersWrite rest (Session.flush s).2 h
  | e@(.write id _ _) :: rest, s, h => h.Live id ∧ d.OwnersWrite rest (e.step d s).2 h

/-- The answers to the calls among some events. -/
def answers (d : Directory) : List DirectoryEvent → Session δ → List (Except Failure DirectoryAnswer)
  | [], _ => []
  | .call c :: rest, s => (c.step d s).1 :: d.answers rest (c.step d s).2
  | e :: rest, s => d.answers rest (e.step d s).2

end Directory

/-! ### Shapes -/

namespace DirectoryCall

open Directory DirectoryShape

variable {d : Directory} {size : ℕ} {D : DirectoryShape}

/-- The entries after a call are those that were not dropped, and one with a new page. -/
lemma rows_act (h : D.Tidy) (hroomy : RowFormat.entries.Roomy size) (call : DirectoryCall) {e : Entry}
    (he : e ∈ (call.act d size D).2.tree.rows) :
    e ∈ D.tree.rows ∧ e.page.index ∉ call.dropped (call.act d size D).1 ∨
      ¬ CacheFile.indexLimit ≤ D.next ∧ D.next < (call.act d size D).2.next ∧
        e.page = .make 0 .index D.next := by
  cases call with
  | obtain name =>
      rw [act] at he ⊢
      obtain hsame | ⟨-, hlimit, hentered, -⟩ := obtain_cases d size D name
      · rw [hsame] at he
        exact .inl ⟨he, List.not_mem_nil⟩
      · rw [hentered] at he ⊢
        have hrows := (TreeShape.put_dense RowFormat.entries hroomy h.dense (D.newEntry name)
          (D.next + 1)).2
        obtain rfl | ⟨he, -⟩ := Rows.mem_insert.mp (hrows e he)
        · exact .inr ⟨hlimit, next_lt_enter size name D, rfl⟩
        · exact .inl ⟨he, List.not_mem_nil⟩
  | drop name =>
      rw [act] at he ⊢
      obtain hdrop | ⟨e', hfind, hdrop⟩ := drop_cases d D name <;> rw [hdrop] at he ⊢
      · exact .inl ⟨he, List.not_mem_nil⟩
      · rw [(TreeShape.remove_ordered h.ordered (searchKey name)).2.2] at he
        obtain ⟨he, hne⟩ := Rows.mem_erase.mp he
        obtain ⟨he', hkey⟩ := h.find?_eq_some.mp hfind
        refine .inl ⟨he, fun hin => hne ?_⟩
        rw [h.distinct e he e' he' (List.mem_singleton.mp hin), hkey]
  | entries => exact .inl ⟨he, List.not_mem_nil⟩
  | names => exact .inl ⟨he, List.not_mem_nil⟩
  | size => exact .inl ⟨he, List.not_mem_nil⟩

/-- A page that an answer returns is entered afterwards, or it is the one that was dropped. -/
lemma pages_act (h : D.Tidy) (hroomy : RowFormat.entries.Roomy size) (call : DirectoryCall)
    {page : PageId} (hpage : page ∈ DirectoryAnswer.pages (call.act d size D).1) :
    (∃ e ∈ (call.act d size D).2.tree.rows, e.page = page) ∨
      page.index ∈ call.dropped (call.act d size D).1 := by
  cases call with
  | obtain name =>
      left
      rw [act] at hpage ⊢
      rw [DirectoryShape.obtain] at hpage ⊢
      split at hpage
      · exact absurd hpage List.not_mem_nil
      rename_i hlong
      rw [if_neg hlong]
      cases hfind : D.find? name with
      | some e =>
          rw [hfind] at hpage
          obtain rfl : page = e.page := List.mem_singleton.mp hpage
          exact ⟨e, (h.find?_eq_some.mp hfind).1, rfl⟩
      | none =>
          rw [hfind] at hpage
          simp only at hpage ⊢
          split at hpage
          · exact absurd hpage List.not_mem_nil
          rename_i hlimit
          rw [if_neg hlimit]
          split at hpage
          · rename_i hold
            obtain rfl : page = .make 0 .index D.next := List.mem_singleton.mp hpage
            obtain ⟨old, hold⟩ := Option.isSome_iff_exists.mp hold
            refine ⟨D.newEntry name, ?_, rfl⟩
            change D.newEntry name ∈ (D.enter size name).tree.rows
            rw [show (D.enter size name).tree.rows = _ from
              (TreeShape.put_rows RowFormat.entries hroomy h.dense hold).2, Rows.mem_insert]
            exact .inl rfl
          · exact absurd hpage List.not_mem_nil
  | drop name =>
      right
      rw [act] at hpage ⊢
      obtain hdrop | ⟨e, -, hdrop⟩ := drop_cases d D name <;> rw [hdrop] at hpage ⊢
      · exact absurd hpage List.not_mem_nil
      · rw [List.mem_singleton.mp hpage]
        exact List.mem_singleton_self _
  | entries =>
      obtain ⟨e, he, rfl⟩ := List.mem_map.mp hpage
      exact .inl ⟨e, he, rfl⟩
  | names => exact absurd hpage List.not_mem_nil
  | size => exact absurd hpage List.not_mem_nil

/-- A page that is handed out for a name is entered under it. -/
lemma named_act (h : D.Tidy) (hroomy : RowFormat.entries.Roomy size) (call : DirectoryCall)
    {name : String} {page : PageId} (hin : (name, page) ∈ call.named (call.act d size D).1) :
    ∃ e, (call.act d size D).2.find? name = some e ∧ e.page = page := by
  cases call with
  | obtain name' =>
      rw [act] at hin ⊢
      rw [DirectoryShape.obtain] at hin ⊢
      split at hin
      · exact absurd hin List.not_mem_nil
      rename_i hlong
      rw [if_neg hlong]
      cases hfind : D.find? name' with
      | some e =>
          rw [hfind] at hin
          cases List.mem_singleton.mp hin
          exact ⟨e, hfind, rfl⟩
      | none =>
          rw [hfind] at hin
          simp only at hin ⊢
          split at hin
          · exact absurd hin List.not_mem_nil
          rename_i hlimit
          rw [if_neg hlimit]
          split at hin
          · rename_i hold
            cases List.mem_singleton.mp hin
            obtain ⟨old, hold⟩ := Option.isSome_iff_exists.mp hold
            refine ⟨D.newEntry name, (h.enter hroomy hlimit name).find?_eq_some.mpr
              ⟨?_, key_newEntry name D⟩, rfl⟩
            change D.newEntry name ∈ (D.enter size name).tree.rows
            rw [show (D.enter size name).tree.rows = _ from
              (TreeShape.put_rows RowFormat.entries hroomy h.dense hold).2, Rows.mem_insert]
            exact .inl rfl
          · exact absurd hin List.not_mem_nil
  | drop name' => exact absurd hin List.not_mem_nil
  | entries => exact absurd hin List.not_mem_nil
  | names => exact absurd hin List.not_mem_nil
  | size => exact absurd hin List.not_mem_nil

/-- A page that is handed out for the first time is the next one. -/
lemma obtain_allocated {name : String} {r : RootPage} (hr : (D.obtain d size name).1 = .ok r)
    (hallocated : r.allocated = true) :
    r.address.page.index = D.next ∧ D.next < (D.obtain d size name).2.next := by
  rw [DirectoryShape.obtain] at hr ⊢
  split at hr
  · cases hr
  rename_i hlong
  rw [if_neg hlong]
  cases hfind : D.find? name with
  | some e =>
      rw [hfind] at hr
      cases hr
      cases hallocated
  | none =>
      rw [hfind] at hr
      simp only at hr ⊢
      split at hr
      · cases hr
      rename_i hlimit
      rw [if_neg hlimit]
      split at hr
      · obtain rfl := Except.ok.inj hr
        exact ⟨index_next hlimit, next_lt_enter size name D⟩
      · cases hr

end DirectoryCall

/-! ### The invariant -/

namespace Directory

open DirectoryEvent

variable {δ : Type} [Device δ] {d : Directory} {s s' : Session δ} {D : DirectoryShape} {h : Handed}
  {bytes : PageId → Page} {id : PageId}

/-- A page is its owner's: it is handed out, or it is entered. -/
def Kept (D : DirectoryShape) (h : Handed) (id : PageId) : Prop :=
  h.Live id ∨ ∃ e ∈ D.tree.rows, e.page = id

/-- A page that was handed out for a name was dropped, or is still entered under the name. Where
the last index is taken, the name may have gone, and does not come back. -/
def Named (D : DirectoryShape) (h : Handed) (name : String) (id : PageId) : Prop :=
  id.index ∈ h.dropped ∨ (∃ e, D.find? name = some e ∧ e.page = id) ∨
    D.find? name = none ∧ CacheFile.indexLimit ≤ D.next

/-- A directory in memory whose owners' pages hold certain bytes. They are none of the pages of
the tree, and carry the ids that new pages get, so that each is known by its index. -/
structure Tends (d : Directory) (s : Session δ) (D : DirectoryShape) (h : Handed)
    (bytes : PageId → Page) : Prop where
  held : d.Held (.none δ) s D
  made : ∀ id, Kept D h id → id = .make 0 .index id.index
  below : ∀ id, Kept D h id → id.index < D.next
  apart : ∀ id, Kept D h id → id.index ∉ 0 :: D.tree.indexes
  memory : ∀ id, Kept D h id → s.InMemory d.cache id.index (bytes id)
  freed : ∀ i ∈ h.dropped, s.Freed d.cache i
  named : ∀ name id, (name, id) ∈ h.named → Named D h name id
  fresh : ∀ id : PageId, D.next ≤ id.index → bytes id = .zeros s.size

/-- Pages of their owners are known by their indexes. -/
lemma Tends.index_injective (ht : d.Tends s D h bytes) {id id' : PageId} (hid : Kept D h id)
    (hid' : Kept D h id') (heq : id.index = id'.index) : id = id' := by
  rw [ht.made id hid, ht.made id' hid', heq]

/-- The answer to a call is that of the shape. -/
lemma Held.step_none (hheld : d.Held (.none δ) s D) (call : DirectoryCall) :
    (call.step d s).1 = (call.act d s.size D).1 ∧ d.Moves (.none δ) s D call (call.step d s).2 := by
  refine Ends.result (P := fun r s' => r = (call.act d s.size D).1 ∧ d.Moves (.none δ) s D call s')
    ((hheld.step_ends call).mono (fun a s' h => ⟨h.1.symm, h.2⟩) ?_)
  rintro e s' (⟨_, _, _, _, _, hhas, _⟩ | ⟨hact, hmoves⟩)
  · exact hhas.elim
  · exact ⟨hact.symm, hmoves⟩

/-- A call hands pages out and takes one back, and leaves the others alone. -/
lemma Tends.call (ht : d.Tends s D h bytes) (call : DirectoryCall) :
    d.Tends (call.step d s).2 (call.act d s.size D).2 (h.after call (call.step d s).1) bytes := by
  obtain ⟨hanswer, hmoves⟩ := ht.held.step_none call
  have htidy := ht.held.tidy
  rw [hanswer]
  generalize (call.step d s).2 = s' at hmoves
  have hle : D.next ≤ (call.act d s.size D).2.next := DirectoryCall.next_le_act call
  -- a page is one that was kept before and is not dropped, or the new one
  have hcases : ∀ id, Kept (call.act d s.size D).2 (h.after call (call.act d s.size D).1) id →
      Kept D h id ∧ id.index ∉ call.dropped (call.act d s.size D).1 ∨
        id.index = D.next ∧ D.next < (call.act d s.size D).2.next ∧ id = .make 0 .index D.next := by
    have hrow : ∀ e ∈ (call.act d s.size D).2.tree.rows, Kept D h e.page ∧
        e.page.index ∉ call.dropped (call.act d s.size D).1 ∨ e.page.index = D.next ∧
          D.next < (call.act d s.size D).2.next ∧ e.page = .make 0 .index D.next := by
      intro e he
      refine (DirectoryCall.rows_act htidy ht.held.roomy call he).imp (fun he => ?_) fun he => ?_
      · exact ⟨.inr ⟨e, he.1, rfl⟩, he.2⟩
      · exact ⟨by rw [he.2.2, DirectoryShape.index_next he.1], he.2⟩
    rintro id (⟨hin, hout⟩ | ⟨e, he, rfl⟩)
    · rw [Handed.after, List.mem_append, not_or] at hout
      obtain hin | hin := List.mem_append.mp hin
      · exact .inl ⟨.inl ⟨hin, hout.1⟩, hout.2⟩
      · obtain ⟨e, he, rfl⟩ :=
          (DirectoryCall.pages_act htidy ht.held.roomy call hin).resolve_right hout.2
        exact hrow e he
    · exact hrow e he
  refine ⟨hmoves.held, fun id hid => ?_, fun id hid => ?_, fun id hid hin => ?_, fun id hid => ?_,
    fun i hi => ?_, fun name id hin => ?_, fun id hid => ?_⟩
  · obtain ⟨hid, -⟩ | ⟨hindex, -, rfl⟩ := hcases id hid
    · exact ht.made id hid
    · rw [hindex]
  · obtain ⟨hid, -⟩ | ⟨hindex, hlt, -⟩ := hcases id hid
    · exact (ht.below id hid).trans_le hle
    · rwa [hindex]
  · obtain ⟨hid, -⟩ | ⟨hindex, -, -⟩ := hcases id hid
    · obtain hzero | hin := List.mem_cons.mp hin
      · exact ht.apart id hid (List.mem_cons.mpr (.inl hzero))
      · obtain hin | hlt := DirectoryCall.mem_indexes_act call hin
        · exact ht.apart id hid (List.mem_cons_of_mem _ hin)
        · exact (ht.below id hid).asymm hlt
    · rw [hindex] at hin
      obtain hzero | hin := List.mem_cons.mp hin
      · exact htidy.pos.ne' hzero
      · obtain hin | hlt := DirectoryCall.mem_indexes_act call hin
        · exact lt_irrefl _ (htidy.nodes _ hin)
        · exact lt_irrefl _ hlt
  · obtain ⟨hid, hout⟩ | ⟨hindex, hlt, -⟩ := hcases id hid
    · refine hmoves.keeps.memory (fun hin => ?_) (ht.memory id hid)
      exact (List.mem_append.mp hin).elim (ht.apart id hid) hout
    · rw [hindex, ht.fresh id hindex.ge]
      exact hmoves.fresh hlt
  · obtain hi | hi := List.mem_append.mp hi
    · exact hmoves.still ht.held (ht.freed i hi)
    · exact hmoves.freed i hi
  · obtain hin | hin := List.mem_append.mp hin
    · obtain hdropped | ⟨e, hfind, rfl⟩ | ⟨hgone, hlimit⟩ := ht.named name id hin
      · exact .inl (List.mem_append_left _ hdropped)
      · exact (DirectoryCall.find?_act htidy ht.held.roomy call hfind).imp (List.mem_append_right _)
          (Or.imp_left fun hfind => ⟨e, hfind, rfl⟩)
      · exact .inr (.inr ⟨DirectoryCall.find?_act_none htidy call hgone hlimit, hlimit.trans hle⟩)
    · exact .inr (.inl (DirectoryCall.named_act htidy ht.held.roomy call hin))
  · rw [ht.fresh id (hle.trans hid), hmoves.keeps.size]

/-- A directory tends its pages after a call that changes nothing. -/
lemma Tends.quiet (ht : d.Tends s D h bytes) (hquiet : s.Quiet (.none δ) d.cache s') :
    d.Tends s' D h bytes where
  held := ht.held.quiet hquiet
  made := ht.made
  below := ht.below
  apart := ht.apart
  memory id hid := hquiet.memory (ht.memory id hid)
  freed i hi := hquiet.keeps.still List.not_mem_nil (ht.freed i hi)
  named := ht.named
  fresh id hid := by rw [ht.fresh id hid, hquiet.keeps.size]

/-- An owner changes its page, and nothing else changes. -/
lemma Tends.write (ht : d.Tends s D h bytes) (hid : h.Live id) (f : Page → Page) :
    d.Tends (Session.edit d.cache id (PageCall.overwriting f) s).2 D h
      (fun id' => if id = id' then f (bytes id') else bytes id') := by
  have hkept : Kept D h id := .inl hid
  obtain ⟨s', hedit, hpage, hkeeps, hnext⟩ := Session.edit_memory (B := .none δ)
    (m := PageCall.overwriting f) (ht.memory id hkept) rfl
  rw [hedit]
  have hout : ∀ i ∈ 0 :: D.tree.indexes, i ∉ [id.index] := fun i hi hin =>
    ht.apart id hkept (List.mem_singleton.mp hin ▸ hi)
  -- The owner's page has its new bytes, and no other page has the same index.
  have hmemory : ∀ id', Kept D h id' →
      s'.InMemory d.cache id'.index (if id = id' then f (bytes id') else bytes id') := by
    intro id' hid'
    by_cases heq : id = id'
    · subst heq
      rw [if_pos rfl]
      exact hpage
    · rw [if_neg heq]
      exact hkeeps.memory (fun hin => heq (ht.index_injective hid' hkept (List.mem_singleton.mp hin)).symm)
        (ht.memory id' hid')
  refine ⟨⟨ht.held.holds.keeps hkeeps (hout 0 List.mem_cons_self)
      fun i hi => hout i (List.mem_cons_of_mem 0 hi), hnext.trans ht.held.next, ht.held.tidy,
      fun e he => ⟨_, (hmemory e.page (.inr ⟨e, he, rfl⟩)).shows⟩⟩,
    ht.made, ht.below, ht.apart, hmemory, fun i hi => hkeeps.still (fun hin => ?_) (ht.freed i hi),
    ht.named, fun id' hid' => ?_⟩
  · rw [List.mem_singleton.mp hin] at hi
    exact hid.2 hi
  · have hne : id ≠ id' := by
      rintro rfl
      exact absurd (ht.below id hkept) (Nat.not_lt.mpr hid')
    rw [if_neg hne, ht.fresh id' hid', hkeeps.size]

/-! ### Histories -/

/-- Whatever happens, the pages hold what their owners have made of them. -/
lemma Tends.through (ht : d.Tends s D h bytes) {events : List DirectoryEvent}
    (hevents : d.OwnersWrite events s h) :
    ∃ D', d.Tends (d.through events s) D' (d.handed events s h)
      (fun id => written events id (bytes id)) := by
  induction events generalizing s D h bytes with
  | nil => exact ⟨D, ht⟩
  | cons e rest ih =>
      cases e with
      | call c =>
          have hstep : ((DirectoryEvent.call c).step d s).2 = (c.step d s).2 := by
            rcases hrun : c.step d s with ⟨e | a, s'⟩
            · exact congrArg Prod.snd (run_map_error hrun _)
            · exact congrArg Prod.snd (run_map_ok hrun _)
          rw [Directory.through, hstep]
          exact ih (ht.call c) hevents
      | flush =>
          have hquiet := Ends.result (P := fun _ s' => s.Quiet (.none δ) d.cache s')
            (Session.flush_quiet d.cache s)
          exact ih (ht.quiet hquiet) hevents
      | write id f hf =>
          obtain ⟨D', ht'⟩ := ih (ht.write hevents.1 f) hevents.2
          exact ⟨D', ht'⟩

/-- An owner's write keeps to the cache. -/
lemma write_within (d : Directory) (id : PageId) {f : Page → Page} (hf : ∀ p, (f p).size = p.size) :
    Session.Within d.cache (Session.edit d.cache id (PageCall.overwriting f) : SessionM δ Unit) :=
  .edit id hf

/-- Where the owners have changed nothing, the directory answers the same. -/
lemma Tends.answers (ht : d.Tends s D h bytes) {t : Session δ} (hheld : d.Held (.none δ) t D)
    (hsize : t.size = s.size) {events : List DirectoryEvent} (hevents : d.OwnersWrite events s h) :
    d.answers events s = d.answers (events.filter fun e => !e.IsWrite) t := by
  induction events generalizing s t D h bytes with
  | nil => rfl
  | cons e rest ih =>
      cases e with
      | call c =>
          obtain ⟨hanswer, hmoves⟩ := ht.held.step_none c
          obtain ⟨hanswer', hmoves'⟩ := hheld.step_none c
          rw [hsize] at hanswer'
          rw [List.filter_cons_of_pos rfl, Directory.answers, Directory.answers, hanswer, hanswer']
          refine congrArg _ (ih (ht.call c) (hsize ▸ hmoves'.held) ?_ hevents)
          rw [hmoves.keeps.size, hmoves'.keeps.size, hsize]
      | flush =>
          have hquiet := Ends.result (P := fun _ s' => s.Quiet (.none δ) d.cache s')
            (Session.flush_quiet d.cache s)
          have hquiet' := Ends.result (P := fun _ t' => t.Quiet (.none δ) d.cache t')
            (Session.flush_quiet d.cache t)
          exact ih (ht.quiet hquiet) (hheld.quiet hquiet')
            (hquiet'.keeps.size.trans (hsize.trans hquiet.keeps.size.symm)) hevents
      | write id f hf =>
          have honly := (d.write_within id hf).only s
          exact ih (ht.write hevents.1 f) hheld
            (hsize.trans (congrArg Options.pageSize honly.options).symm) hevents.2

variable {A : Device.Account δ} {c : CacheId}

/-- A cache goes with its file, its freed pages are full of zeros, and no other cache is
open. -/
structure Solo (A : Device.Account δ) (c : CacheId) (s : Session δ) : Prop where
  backed : s.Backed A c
  spent : ∀ i, (s.array A c).Spent s.size i
  alone : ∀ c' ∈ s.store.caches, c' = c

/-- A cache that is alone in its store stays so under calls for its pages. -/
lemma Solo.within (h : Solo A c s) {α : Type} {m : SessionM δ α} (hm : Session.Within c m) :
    Solo A c (m s).2 := by
  obtain ⟨a, hturns, hspent⟩ := hm.runs h.backed
  refine ⟨hturns.backed, fun i => ?_, fun c' hc' => ?_⟩
  · rw [hturns.array, hturns.size]
    exact hspent i (h.spent i)
  · by_contra hne
    rw [Std.TreeMap.mem_iff_isSome_getElem?, hturns.only.others c' hne,
      ← Std.TreeMap.mem_iff_isSome_getElem?] at hc'
    exact hne (h.alone c' hc')

/-- What a flush leaves, and what it has saved if it comes to its end. -/
lemma Solo.flush (h : Solo A c s) :
    Solo A c (Session.flush s).2 ∧ ((Session.flush s).1 = .ok () → ∀ i, (Session.flush s).2.Clean c i) := by
  have hsaves := Session.flushIn_saves (A := A) (C := {c})
    (fun c' hc' => by rw [Set.mem_singleton_iff.mp hc']; exact h.backed) (fun c' hc' => h.alone c' hc')
    h.backed.honest .ascending
  rw [← Session.flush_eq_flushIn] at hsaves
  have hsolo : ∀ s', s.Saves A {c} s' → Solo A c s' := by
    intro s' hs'
    refine ⟨hs'.backed c rfl, fun i => ?_, fun c' hc' => h.alone c' ((hs'.opened c').mp hc')⟩
    rw [hs'.array c rfl, hs'.size]
    exact h.spent i
  rcases hrun : Session.flush s with ⟨e | ⟨⟩, s'⟩
  · exact ⟨hsolo s' (hsaves.error hrun).2, fun hok => by cases hok⟩
  · exact ⟨hsolo s' (hsaves.ok hrun).1, fun _ i => (hsaves.ok hrun).2 c i⟩

/-- A cache that is alone in its store stays so through a run. -/
lemma Solo.through (h : Solo A d.cache s) (events : List DirectoryEvent) :
    Solo A d.cache (d.through events s) := by
  induction events generalizing s with
  | nil => exact h
  | cons e rest ih =>
      refine ih ?_
      cases e with
      | call c => exact h.within ((d.step_within c).map _)
      | flush => exact h.flush.1
      | write id f hf => exact h.within (d.write_within id hf)

/-- A page that was freed stands full of zeros in the file once it was flushed. -/
lemma Solo.saved (h : Solo A c s) {i : ℕ} (hi : s.Freed c i) (hflush : (Session.flush s).1 = .ok ()) :
    i * s.size + s.size ≤ ((Session.flush s).2.file A c).length ∧
      Bytes.pageAt ((Session.flush s).2.file A c) s.size i = .zeros s.size := by
  obtain ⟨hsolo, hclean⟩ := h.flush
  have hquiet := Ends.result (P := fun _ s' => s.Quiet (.none δ) c s') (Session.flush_quiet c s)
  have hfreed := hquiet.keeps.still List.not_mem_nil hi
  rw [← hquiet.keeps.size]
  generalize (Session.flush s).2 = s' at hsolo hclean hfreed
  have hclean := hclean hflush
  obtain ⟨k, f, hk, hlt, hf, hf'⟩ := hfreed
  have hin : i ∈ (s'.array A c).freed := by
    rw [Session.array_open hk]
    exact CacheFile.mem_freed.mpr ⟨f, hf, hf'⟩
  obtain ⟨hmeta, -, hpage⟩ := hsolo.spent i hin
  have hopened := hsolo.backed.opened hk
  have hnone : ∀ i, ¬ k.Waits i := by
    rintro i ⟨g, hg, hdirty⟩
    rw [hclean i k g hk hg] at hdirty
    cases hdirty
  refine ⟨(hopened.whole i hmeta hlt).resolve_right (hnone i), ?_⟩
  rw [← hpage, Session.array_open hk,
    (hopened.ofFile_eq hsolo.backed.size_pos fun i f hf => hclean i k f hk hf).2.1]

/-! ### A new directory -/

lemma size_set (p : Page) : (p.set! 0 7).size = p.size := by
  rw [← Page.length_bytes, Page.bytes_set, List.length_set, Page.length_bytes]

/-- A page is entered, written and dropped. -/
def cleared : List DirectoryEvent :=
  [.call (.obtain "a"), .write (.make 0 .index 2) (fun p => p.set! 0 7) size_set, .call (.drop "a")]

end Directory

end PageCatalog
