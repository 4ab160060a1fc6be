import Mathlib.Tactic
import PageCatalog.Proofs.Device.Disks
import PageCatalog.Proofs.Device.Path
import PageCatalog.Proofs.Store.Flushing

/-!
The caches of a store as arrays, over whole histories.

A store is opened over files that are cut into whole pages, and then asked anything, while
its device fails wherever it likes. Every call either reports an error of the device and has
changed nothing, or it answers as arrays of pages do, to which only the answers before it
belong.

* `PageCall`, `PageCall.step`: what may be asked, and what the program does.
* `PageCall.answer`, `PageCall.update`: what arrays do.
* `PageCall.step_answers`: one call.
* `StoreEvent`, `Session.arraysAfter`: histories; `PageArray.Numbered`, what holds of an array
  in every history.
* `Session.answers_of_calls`: every call of a history.
-/

namespace PageCatalog

/-- What is asked of the pages of a store. -/
inductive PageCall where
  | count (c : CacheId)
  | freedCount (c : CacheId)
  | allocate (c : CacheId) (partition : UInt16) (space : Space)
  | free (c : CacheId) (id : PageId)
  | read (c : CacheId) (id : PageId)
  /-- Any change of the bytes of a page. -/
  | write (c : CacheId) (id : PageId) (f : Page → Page) (hf : ∀ p, (f p).size = p.size)
  | flush (o : Schedule)

/-- What a store gives back. -/
inductive PageAnswer where
  | number (n : ℕ)
  | id (id : PageId)
  | page (p : Page)
  | done

namespace PageCall

variable {δ : Type} [Device δ]

/-- A change that cannot fail. -/
def overwriting (f : Page → Page) : PageM Unit := fun p => (.ok (), f p)

/-- What the program does. -/
def step : PageCall → SessionM δ PageAnswer
  | count c => .number <$> Session.pageCount c
  | freedCount c => .number <$> Session.freedCount c
  | allocate c partition space => .id <$> Session.allocate c partition space
  | free c id => (fun _ => .done) <$> Session.free c id
  | read c id => .page <$> Session.view c id pure
  | write c id f _ => (fun _ => .done) <$> Session.edit c id (overwriting f)
  | flush o => (fun _ => .done) <$> Session.flushIn o

/-- What arrays answer, and what becomes of them. -/
def answer (size : ℕ) (arrays : CacheId → PageArray) :
    PageCall → Except Failure PageAnswer × (CacheId → PageArray)
  | count c => (.ok (.number (arrays c).count), arrays)
  | freedCount c => (.ok (.number (arrays c).freed.card), arrays)
  | allocate c partition space =>
    if (arrays c).count < CacheFile.indexLimit then
      (.ok (.id (.make partition space (arrays c).count)),
        Function.update arrays c ((arrays c).push size))
    else (.error (.error (.outOfSpace c)), arrays)
  | free c id =>
    if id.index = 0 then (.error (.error (.corrupted (.metaFreed c))), arrays)
    else if (arrays c).Has id.index then
      (.ok .done, Function.update arrays c ((arrays c).release id.index size))
    else (.error (.error (.pageNotFound id c)), arrays)
  | read c id =>
    if (arrays c).Has id.index then (.ok (.page ((arrays c).page id.index)), arrays)
    else (.error (.error (.pageNotFound id c)), arrays)
  | write c id f _ =>
    if (arrays c).Has id.index then
      (.ok .done, Function.update arrays c ((arrays c).set id.index (f ((arrays c).page id.index))))
    else (.error (.error (.pageNotFound id c)), arrays)
  | flush _ => (.ok .done, arrays)

/-- What becomes of arrays with a call that was answered so. An error of the device leaves
them as they are. -/
def update (size : ℕ) (arrays : CacheId → PageArray) (r : Except Failure PageAnswer)
    (call : PageCall) : CacheId → PageArray :=
  match r with
  | .error (.error (.io _)) => arrays
  | _ => (call.answer size arrays).2

/-- A call changes the array of its own cache only. -/
lemma update_of_ne {size : ℕ} {arrays : CacheId → PageArray} {r : Except Failure PageAnswer}
    {call : PageCall} (h : ∀ io, r ≠ .error (.error (.io io))) :
    call.update size arrays r = (call.answer size arrays).2 := by
  unfold update
  split
  · exact absurd rfl (h _)
  · rfl

/-! ### One call -/

variable {A : Device.Account δ} {s s' : Session δ} {call : PageCall}

/-- A call has met an error of the device and changed nothing, or has answered as the arrays
do and left the arrays that they become. No file has changed but by a flush. -/
structure Agrees (A : Device.Account δ) (s : Session δ) (call : PageCall)
    (r : Except Failure PageAnswer) (s' : Session δ) : Prop where
  backed : ∀ c, s'.Backed A c
  answer : (∃ io, r = .error (.error (.io io))) ∨ r = (call.answer s.size (s.array A)).1
  arrays : s'.array A = call.update s.size (s.array A) r
  folder : s'.store.folder = s.store.folder
  options : s'.store.options = s.store.options
  present : ∀ {path}, A.Present s.device path → A.Present s'.device path
  files : (∀ o, call ≠ flush o) → A.bytes s'.device = A.bytes s.device
  grows : ∀ c, Grows s.size (s.file A c) (s'.file A c)

section Turns

variable {c : CacheId} {a : PageArray} {e : Failure} {id : PageId}

/-- Where one cache turns into another array, the arrays are changed at that place. -/
lemma turns_arrays (h : s.Turns A c a s') : s'.array A = Function.update (s.array A) c a := by
  funext c'
  by_cases hc : c' = c
  · subst hc
    rw [Function.update_self, h.array]
  · rw [Function.update_of_ne hc, (h.other hc).array]

/-- A call for one cache leaves all of them going with their files. -/
lemma turns_backed (hs : ∀ c, s.Backed A c) (h : s.Turns A c a s') (c' : CacheId) :
    s'.Backed A c' := by
  by_cases hc : c' = c
  · subst hc
    exact h.backed
  · exact (h.other hc).backed (hs c')

/-- A call that the arrays answer so has turned one of them. -/
lemma agrees_of_turns (hs : ∀ c, s.Backed A c) (h : s.Turns A c a s') {r : Except Failure PageAnswer}
    (hanswer : call.answer s.size (s.array A) = (r, Function.update (s.array A) c a))
    (hio : ∀ io, r ≠ .error (.error (.io io))) : call.Agrees A s r s' where
  backed := turns_backed hs h
  answer := .inr (by rw [hanswer])
  arrays := by rw [turns_arrays h, update_of_ne hio, hanswer]
  folder := h.folder
  options := h.only.options
  present := h.present
  files _ := h.files
  grows c := by
    rw [h.file]
    exact .refl _ _

/-- A call that changes nothing and answers as the arrays do, or fails as the device does. -/
lemma agrees_of_rest (hs : ∀ c, s.Backed A c) (h : s.Turns A c (s.array A c) s')
    {r : Except Failure PageAnswer}
    (hanswer : (∃ io, r = .error (.error (.io io))) ∨ call.answer s.size (s.array A) = (r, s.array A)) :
    call.Agrees A s r s' where
  backed := turns_backed hs h
  answer := hanswer.imp_right fun h => by rw [h]
  arrays := by
    rw [turns_arrays h, Function.update_eq_self]
    obtain ⟨io, rfl⟩ | hanswer := hanswer
    · rfl
    · unfold update
      split
      · rfl
      · rw [hanswer]
  folder := h.folder
  options := h.only.options
  present := h.present
  files _ := h.files
  grows c := by
    rw [h.file]
    exact .refl _ _

/-- A page that cannot be had. -/
lemma agrees_of_refuses (hs : ∀ c, s.Backed A c)
    (h : Session.Refuses (s.array A c) c id e ∧ s.Turns A c (s.array A c) s')
    (hanswer : ¬ (s.array A c).Has id.index →
      call.answer s.size (s.array A) = (.error (.error (.pageNotFound id c)), s.array A)) :
    call.Agrees A s (.error e) s' := by
  refine agrees_of_rest hs h.2 ?_
  obtain ⟨io, rfl⟩ | ⟨hhas, rfl⟩ := h.1
  · exact .inl ⟨io, rfl⟩
  · exact .inr (hanswer hhas)

end Turns

/-- Every call meets an error of the device or answers as the arrays do. -/
theorem step_answers (hs : ∀ c, s.Backed A c) (call : PageCall) :
    call.Agrees A s (call.step s).1 (call.step s).2 := by
  apply Ends.result (P := fun r s' => call.Agrees A s r s')
  -- For each call there is one lemma of what it turns its array into; what is left is to read its
  -- answer off the array.
  cases call with
  | count c =>
      refine Ends.map (Ends.bind ((Session.cacheFile_turns (hs c)).mono_error ?_) ?_)
      · exact fun e s' h => agrees_of_rest hs h.2 (.inl (h.1.imp fun _ => congrArg _))
      · rintro k s' ⟨hk, h⟩
        have hcount : (s.array A c).count = k.next := by
          rw [← h.array, Session.array_open hk, CacheFile.array]
        exact Ends.of_ok rfl (agrees_of_rest hs h (.inr (by rw [answer, hcount])))
  | freedCount c =>
      refine Ends.map (Ends.bind ((Session.cacheFile_turns (hs c)).mono_error ?_) ?_)
      · exact fun e s' h => agrees_of_rest hs h.2 (.inl (h.1.imp fun _ => congrArg _))
      · rintro k s' ⟨hk, h⟩
        have hcard : (s.array A c).freed.card = k.freedCount := by
          rw [← h.array, Session.array_open hk, CacheFile.array, CacheFile.card_freed]
        exact Ends.of_ok rfl (agrees_of_rest hs h (.inr (by rw [answer, hcard])))
  | allocate c partition space =>
      refine Ends.map ((Session.allocate_turns (hs c) partition space).mono ?_ ?_)
      · rintro _ s' ⟨hlimit, rfl, h⟩
        exact agrees_of_turns hs h (by rw [answer, if_pos hlimit]) fun io h => by cases h
      · rintro e s' ⟨⟨io, rfl⟩ | ⟨hlimit, rfl⟩, h⟩
        · exact agrees_of_rest hs h (.inl ⟨io, rfl⟩)
        · exact agrees_of_rest hs h (.inr (by rw [answer, if_neg (Nat.not_lt.mpr hlimit)]))
  | free c id =>
      refine Ends.map ((Session.free_turns (hs c) id).mono ?_ ?_)
      · rintro - s' ⟨hmeta, hhas, h⟩
        exact agrees_of_turns hs h (by rw [answer, if_neg hmeta, if_pos hhas]) fun io h => by cases h
      · rintro e s' ⟨⟨hmeta, rfl⟩ | ⟨hmeta, hrefuses⟩, h⟩
        · exact agrees_of_rest hs h (.inr (by rw [answer, if_pos hmeta]))
        · exact agrees_of_refuses hs ⟨hrefuses, h⟩ fun hhas => by
            rw [answer, if_neg hmeta, if_neg hhas]
  | read c id =>
      refine Ends.map ((Session.view_turns (hs c) id pure).mono ?_ ?_)
      · rintro p s' ⟨hhas, hp, h⟩
        obtain rfl : (s.array A c).page id.index = p := Except.ok.inj hp
        exact agrees_of_rest hs h (.inr (by rw [answer, if_pos hhas]))
      · rintro e s' ⟨hrefuses | ⟨-, he⟩, h⟩
        · exact agrees_of_refuses hs ⟨hrefuses, h⟩ fun hhas => by rw [answer, if_neg hhas]
        · cases he
  | write c id f hf =>
      refine Ends.map ((Session.edit_turns (hs c) id (m := overwriting f) hf).mono ?_ ?_)
      · rintro - s' ⟨hhas, -, h⟩
        refine agrees_of_turns hs h ?_ fun io h => by cases h
        rw [answer, if_pos hhas]
        rfl
      · rintro e s' (⟨hrefuses, h⟩ | ⟨-, he, -⟩)
        · exact agrees_of_refuses hs ⟨hrefuses, h⟩ fun hhas => by rw [answer, if_neg hhas]
        · cases he
  | flush o =>
      have hends := Session.flushIn_saves (C := Set.univ) (fun c _ => hs c) (fun _ _ => trivial)
        (hs 0).honest o
      refine Ends.map (hends.mono ?_ ?_)
      · rintro - s' ⟨h, -⟩
        exact ⟨fun c => h.backed c trivial, .inr rfl, funext fun c => h.array c trivial, h.folder,
          h.options, h.present, fun hne => absurd rfl (hne o), fun c => h.grows c trivial⟩
      · rintro e s' ⟨⟨io, rfl⟩, h⟩
        exact ⟨fun c => h.backed c trivial, .inl ⟨io, rfl⟩, funext fun c => h.array c trivial, h.folder,
          h.options, h.present, fun hne => absurd rfl (hne o), fun c => h.grows c trivial⟩

end PageCall

/-! ### What holds of an array in every history -/

namespace PageArray

/-- A page, if it was freed, is one of the pages but not the first one, and is full of
zeros. -/
def Spent (a : PageArray) (size i : ℕ) : Prop :=
  i ∈ a.freed → i ≠ 0 ∧ i < a.count ∧ a.page i = .zeros size

/-- All freed pages of an array are so, and there are no more pages than indexes. -/
structure Numbered (a : PageArray) (size : ℕ) : Prop where
  freed : ∀ i, a.Spent size i
  count_le : a.count ≤ CacheFile.indexLimit

variable {a : PageArray} {size i j : ℕ} {p : Page}

/-- In a file no page is freed. -/
lemma spent_ofFile (file : Bytes) (size i : ℕ) : (ofFile file size).Spent size i :=
  fun hi => absurd hi (Finset.notMem_empty i)

/-- The pages of a file have numbers below the limit, and none of them is freed. -/
lemma numbered_ofFile (file : Bytes) (size : ℕ) : (ofFile file size).Numbered size where
  freed := spent_ofFile file size
  count_le := by
    have hlt : (ofFile file size).count < 0x100000000 := Nat.mod_lt _ (by omega)
    rw [CacheFile.indexLimit]
    omega

/-- A new page is not a freed one. -/
lemma Spent.push (h : a.Spent size i) : (a.push size).Spent size i := fun hi => by
  obtain ⟨hmeta, hlt, hpage⟩ := h hi
  exact ⟨hmeta, Nat.lt_succ_of_lt hlt, (Function.update_of_ne hlt.ne _ _).trans hpage⟩

/-- A page that is written is not freed, or is another one. -/
lemma Spent.set (h : a.Spent size i) (hne : i ≠ j ∨ i ∉ a.freed) : (a.set j p).Spent size i :=
  fun hi => by
    obtain ⟨hmeta, hlt, hpage⟩ := h hi
    exact ⟨hmeta, hlt, (Function.update_of_ne (hne.resolve_right (not_not.mpr hi)) _ _).trans hpage⟩

/-- Pages that are not freed may be written. -/
lemma Spent.set_has (hj : a.Has j) (h : a.Spent size i) : (a.set j p).Spent size i :=
  h.set (or_iff_not_imp_left.mpr fun hij => not_not.mp hij ▸ hj.2)

/-- A page that is freed is full of zeros. -/
lemma Spent.release (h : a.Spent size i) (hj : a.Has j) (hmeta : j ≠ 0) :
    (a.release j size).Spent size i := fun hi => by
  by_cases hij : i = j
  · subst hij
    exact ⟨hmeta, hj.1, Function.update_self ..⟩
  · obtain ⟨hmeta', hlt, hpage⟩ := h ((Finset.mem_insert.mp hi).resolve_left hij)
    exact ⟨hmeta', hlt, (Function.update_of_ne hij _ _).trans hpage⟩

end PageArray

namespace PageCall

variable {size : ℕ} {arrays : CacheId → PageArray} {c : CacheId}

/-- A call keeps what new pages, written pages and freed pages keep. -/
lemma update_keeps {P : PageArray → Prop}
    (hpush : ∀ a, P a → a.count < CacheFile.indexLimit → P (a.push size))
    (hset : ∀ a i p, P a → a.Has i → P (a.set i p))
    (hrelease : ∀ a i, P a → a.Has i → i ≠ 0 → P (a.release i size)) (h : P (arrays c))
    (r : Except Failure PageAnswer) (call : PageCall) : P (call.update size arrays r c) := by
  have hupdate : ∀ c' a, (P (arrays c') → P a) → P (Function.update arrays c' a c) := by
    intro c' a ha
    by_cases hc : c = c'
    · subst hc
      rw [Function.update_self]
      exact ha h
    · rwa [Function.update_of_ne hc]
  -- A refused call changes nothing; the three that change an array change it at one place.
  unfold update
  split
  · exact h
  cases call with
  | allocate c' partition space =>
      rw [answer]
      split
      · exact hupdate c' _ fun h => hpush _ h ‹_›
      · exact h
  | free c' id =>
      rw [answer]
      split
      · exact h
      · split
        · exact hupdate c' _ fun h => hrelease _ _ h ‹_› ‹_›
        · exact h
  | write c' id f hf =>
      rw [answer]
      split
      · exact hupdate c' _ fun h => hset _ _ _ h ‹_›
      · exact h
  | read c' id =>
      rw [answer]
      split <;> exact h
  | count c' => exact h
  | freedCount c' => exact h
  | flush o => exact h

/-- No call puts anything into a freed page. -/
lemma update_spent {i : ℕ} (h : (arrays c).Spent size i) (r : Except Failure PageAnswer)
    (call : PageCall) : (call.update size arrays r c).Spent size i :=
  update_keeps (P := fun a => a.Spent size i) (fun _ h _ => h.push)
    (fun _ _ _ h hj => .set_has hj h)
    (fun _ _ h => h.release) h r call

/-- No call makes a page beyond the limit, and the pages it frees are full of zeros. -/
lemma update_numbered (h : (arrays c).Numbered size) (r : Except Failure PageAnswer)
    (call : PageCall) : (call.update size arrays r c).Numbered size where
  freed i := update_spent (h.freed i) r call
  count_le := update_keeps (P := fun a => a.count ≤ CacheFile.indexLimit) (fun _ _ hlt => hlt)
    (fun _ _ _ h _ => h) (fun _ _ h _ _ => h) h.count_le r call

/-- No call makes an array smaller. -/
lemma count_le_update (r : Except Failure PageAnswer) (call : PageCall) :
    (arrays c).count ≤ (call.update size arrays r c).count :=
  update_keeps (P := fun a => (arrays c).count ≤ a.count) (fun _ h _ => Nat.le_succ_of_le h)
    (fun _ _ _ h _ => h) (fun _ _ h _ _ => h) le_rfl r call

end PageCall

/-! ### Histories -/

/-- What happens to a store: a call, or something that becomes of its device, as when faults
come and go. -/
inductive StoreEvent (δ : Type) where
  | call (call : PageCall)
  | turn (f : δ → δ)

namespace Session

variable {δ : Type} [Device δ]

/-- What becomes of the device by itself leaves its files as they are. -/
def Steady (A : Device.Account δ) (events : List (StoreEvent δ)) : Prop :=
  ∀ f, .turn f ∈ events → ∀ d, A.Honest d → A.Stays d (f d)

/-- The session after some events. -/
def after : List (StoreEvent δ) → Session δ → Session δ
  | [], s => s
  | .call call :: rest, s => after rest (call.step s).2
  | .turn f :: rest, s => after rest { s with device := f s.device }

/-- The arrays that the answers to the calls among some events make of arrays. -/
def arraysAfter : List (StoreEvent δ) → Session δ → (CacheId → PageArray) → (CacheId → PageArray)
  | [], _, arrays => arrays
  | .call call :: rest, s, arrays =>
    arraysAfter rest (call.step s).2 (call.update s.size arrays (call.step s).1)
  | .turn f :: rest, s, arrays => arraysAfter rest { s with device := f s.device } arrays

variable {A : Device.Account δ} {s : Session δ} {arrays : CacheId → PageArray}
  {events : List (StoreEvent δ)}

/-- The rest of a steady history is steady. -/
lemma Steady.of_cons {event : StoreEvent δ} (h : Steady A (event :: events)) : Steady A events :=
  fun f hf => h f (List.mem_cons_of_mem _ hf)

/-- Whatever happens, a session goes on to go with its files, and shows the arrays that its
answers make. -/
lemma after_arrays (hs : ∀ c, s.Backed A c) (hevents : Steady A events) :
    (∀ c, (after events s).Backed A c) ∧
      (after events s).array A = arraysAfter events s (s.array A) ∧
      (after events s).store.options = s.store.options := by
  induction events generalizing s with
  | nil => exact ⟨hs, rfl, rfl⟩
  | cons event rest ih =>
      cases event with
      | call call =>
          have hstep := PageCall.step_answers hs call
          obtain ⟨hbacked, harrays, hoptions⟩ := ih hstep.backed hevents.of_cons
          rw [hstep.arrays] at harrays
          exact ⟨hbacked, harrays, hoptions.trans hstep.options⟩
      | turn f =>
          have hasks : s.Asks A { s with device := f s.device } :=
            ⟨rfl, hevents f List.mem_cons_self _ (hs 0).honest⟩
          obtain ⟨hbacked, harrays, hoptions⟩ :=
            ih (fun c => (hasks.same c).backed (hs c)) hevents.of_cons
          rw [show Session.array A { s with device := f s.device } = s.array A from
            funext fun c => (hasks.same c).array] at harrays
          exact ⟨hbacked, harrays, hoptions⟩

/-- Pages keep their numbers over a whole history, and none goes away. -/
lemma arraysAfter_numbered {size : ℕ} {c : CacheId} (hsize : s.size = size)
    (harrays : (arrays c).Numbered size) (hs : ∀ c, s.Backed A c) (hevents : Steady A events) :
    (arraysAfter events s arrays c).Numbered size ∧
      (arrays c).count ≤ (arraysAfter events s arrays c).count := by
  induction events generalizing s arrays with
  | nil => exact ⟨harrays, le_rfl⟩
  | cons event rest ih =>
      cases event with
      | call call =>
          subst hsize
          have hstep := PageCall.step_answers hs call
          have hsize' : (call.step s).2.size = s.size := by rw [Session.size, hstep.options]
          obtain ⟨hnumbered, hle⟩ := ih hsize' (PageCall.update_numbered harrays (call.step s).1 call)
            hstep.backed hevents.of_cons
          exact ⟨hnumbered, (PageCall.count_le_update _ call).trans hle⟩
      | turn f =>
          have hasks : s.Asks A { s with device := f s.device } :=
            ⟨rfl, hevents f List.mem_cons_self _ (hs 0).honest⟩
          exact ih hsize harrays (fun c => (hasks.same c).backed (hs c)) hevents.of_cons

/-- The arrays that the files of a device are opened as. -/
def opened (A : Device.Account δ) (d : δ) (store : PageStore) (c : CacheId) : PageArray :=
  .ofFile (A.bytes d (store.pathOf c)) store.options.pageSize

end Session

namespace PageCall

variable {δ : Type} [Device δ]

/-- A call is answered as arrays do, which are what the session shows. -/
structure Answered (A : Device.Account δ) (arrays : CacheId → PageArray) (s : Session δ)
    (call : PageCall) : Prop where
  shown : s.array A = arrays
  numbered : ∀ c, (arrays c).Numbered s.size
  agrees : call.Agrees A s (call.step s).1 (call.step s).2
  /-- A new page has the next index, which is none of a freed page. -/
  new : ∀ c partition space id, call = allocate c partition space →
    (call.step s).1 = .ok (.id id) →
    id.partition = partition.toNat ∧ id.space? = some space ∧ id.index = (arrays c).count ∧
      id.index ∉ (arrays c).freed
  /-- The first page is never freed, whatever the device does. -/
  first : ∀ c id, call = free c id → id.index = 0 →
    call.step s = (.error (.error (.corrupted (.metaFreed c))), s)

variable {A : Device.Account δ} {s : Session δ} {arrays : CacheId → PageArray}

/-- Whoever knows the arrays knows the answer of the next call, unless the device fails. -/
lemma answered_of_backed (hs : ∀ c, s.Backed A c) (hshown : s.array A = arrays)
    (hnumbered : ∀ c, (arrays c).Numbered s.size) (call : PageCall) : call.Answered A arrays s := by
  have hagrees := step_answers hs call
  refine ⟨hshown, hnumbered, hagrees, ?_, ?_⟩
  · rintro c partition space id rfl hid
    obtain ⟨io, hio⟩ | hanswer := hagrees.answer
    · rw [hid] at hio
      cases hio
    · rw [hid, answer, hshown] at hanswer
      split at hanswer
      · rename_i hlimit
        obtain rfl : id = .make partition space (arrays c).count := by
          cases hanswer
          rfl
        have hindex : (PageId.make partition space (arrays c).count).index = (arrays c).count := by
          rw [PageId.index_make]
          exact Nat.mod_eq_of_lt (hlimit.trans (by decide))
        refine ⟨PageId.partition_make .., PageId.space?_make .., hindex, fun hin => ?_⟩
        have hlt := ((hnumbered c).freed _ hin).2.1
        omega
      · cases hanswer
  · rintro c id rfl hmeta
    rw [step, Session.free, if_pos hmeta]
    rfl

end PageCall

namespace Session

variable {δ : Type} [Device δ] {A : Device.Account δ}

/-- The caches of a store are arrays of pages. The store is opened over files that are cut
into whole pages, calls are made of it, and its device fails and recovers in between, as long
as it gives no false sizes: each call meets an error of the device and changes nothing, or is
answered by the arrays that the answers before it make of the files.

A file has one page at least, if it has fewer pages than fit the 32 bits of an index; then
its first page is there from the beginning, and no new page is that one. The number of pages
of a longer file is cut to 32 bits, and may be zero. -/
theorem answers_of_calls {folder : String} {options : Options} {d d' : δ} {store : PageStore}
    (hstart : start folder options d = (.ok store, d')) (hd : A.Honest d)
    (hapart : ∀ c c', c ≠ c' → A.Apart (store.pathOf c) (store.pathOf c'))
    (hwhole : ∀ c, options.pageSize ∣ (A.bytes d (store.pathOf c)).length)
    {events : List (StoreEvent δ)} (hevents : Steady A events) (call : PageCall) :
    call.Answered A (arraysAfter events ⟨d', store⟩ (opened A d store)) (after events ⟨d', store⟩) ∧
      ∀ c, (A.bytes d (store.pathOf c)).length < 0x100000000 * options.pageSize →
        0 < (arraysAfter events ⟨d', store⟩ (opened A d store) c).count := by
  obtain ⟨-, hstore, -⟩ := store_of_start hstart
  have hoptions : store.options = options := by rw [hstore]
  set s₀ : Session δ := ⟨d', store⟩ with hs₀
  have hbacked : ∀ c, s₀.Backed A c ∧ s₀.array A c = opened A d store c := fun c => by
    have hstarted := start_backed hstart hd (fun c' hc => hapart c' c hc) (hwhole c)
    rw [opened, hoptions]
    exact ⟨hstarted.1, hstarted.2.2⟩
  obtain ⟨hafter, hshown, hkept⟩ := after_arrays (fun c => (hbacked c).1) hevents
  rw [show s₀.array A = opened A d store from funext fun c => (hbacked c).2] at hshown
  have hsize : (after events s₀).size = s₀.size := by rw [Session.size, hkept]
  have hnumbered : ∀ c, (arraysAfter events s₀ (opened A d store) c).Numbered s₀.size ∧
      (opened A d store c).count ≤ (arraysAfter events s₀ (opened A d store) c).count := fun c =>
    arraysAfter_numbered rfl (PageArray.numbered_ofFile _ _) (fun c => (hbacked c).1) hevents
  refine ⟨PageCall.answered_of_backed hafter hshown (fun c => hsize ▸ (hnumbered c).1) call,
    fun c hfew => lt_of_lt_of_le ?_ (hnumbered c).2⟩
  -- The number of pages is not cut where it fits the bits of an index.
  have hlt : (A.bytes d (store.pathOf c)).length / options.pageSize < 0x100000000 :=
    Nat.div_lt_of_lt_mul (by rwa [Nat.mul_comm])
  change 0 < max ((A.bytes d (store.pathOf c)).length / store.options.pageSize) 1 % 0x100000000
  rw [hoptions, Nat.mod_eq_of_lt (by omega)]
  omega

/-- The small store on a device with faults. -/
def guarded : Session (Faulty MemoryDisk) := ⟨{ inner := blank.device }, blank.store⟩

/-- The store whose device can fail is opened without any call that fails. -/
lemma guarded_start :
    start "store" { pageSize := 512 } guarded.device = (.ok guarded.store, guarded.device) := rfl

/-- No file is there at first. -/
lemma blank_file (path : String) : MemoryDisk.account.bytes blank.device path = [] := by
  change ((blank.device.content? path).getD .empty).data.toList = []
  rw [MemoryDisk.content?, show blank.device.files = ∅ from rfl, Std.TreeMap.getElem?_emptyc]
  rfl

/-- And so each cache of the small store is the array of no pages. -/
lemma blank_backed (c : CacheId) : blank.Backed MemoryDisk.account c := by
  refine (start_backed blank_start trivial
    (fun c' hc heq => hc (PageStore.canonical_pathOf_injective _ heq)) ?_).1
  exact (congrArg List.length (blank_file _)).symm ▸ dvd_zero _

/-- There is no file at first. -/
lemma guarded_file (path : String) : (Faulty.account MemoryDisk.account).bytes guarded.device path = [] :=
  blank_file path

/-- Faults that come and go, without false sizes. -/
lemma steady_faults {events : List (StoreEvent (Faulty MemoryDisk))}
    (h : ∀ f, .turn f ∈ events → ∃ faults : Faults, faults.size = none ∧ f = (·.setFaults faults)) :
    Steady (Faulty.account MemoryDisk.account) events := by
  intro f hf d hd
  obtain ⟨faults, hsize, rfl⟩ := h f hf
  exact Faulty.stays_setFaults hd hsize

/-- An allocation after the device has failed to open the file. -/
theorem answers_of_allocate_again :
    ((PageCall.allocate 1 0 .index).step (after
      [.turn (·.setFaults { attach := true }), .call (.count 1), .turn (·.setFaults {})] guarded)).1
        = .ok (.id (.make 0 .index 1)) := by
  set events : List (StoreEvent (Faulty MemoryDisk)) :=
    [.turn (·.setFaults { attach := true }), .call (.count 1), .turn (·.setFaults {})] with hevents
  have hsteady : Steady (Faulty.account MemoryDisk.account) events := steady_faults fun f hf => by
    simp only [hevents, List.mem_cons, StoreEvent.turn.injEq, reduceCtorEq, List.not_mem_nil,
      or_false, false_or] at hf
    obtain rfl | rfl := hf
    · exact ⟨_, rfl, rfl⟩
    · exact ⟨_, rfl, rfl⟩
  obtain ⟨hanswered, -⟩ := answers_of_calls (A := Faulty.account MemoryDisk.account) guarded_start
    ⟨trivial, rfl⟩ (fun c c' hc heq => hc (PageStore.canonical_pathOf_injective _ heq))
    (fun c => by rw [guarded_file]; exact dvd_zero _) hsteady (.allocate 1 0 .index)
  have hok : ((PageCall.allocate 1 0 .index).step (after events guarded)).1.isOk = true := by
    decide +kernel
  obtain ⟨io, hio⟩ | hanswer := hanswered.agrees.answer
  · change ((PageCall.allocate 1 0 .index).step (after events guarded)).1 = _ at hio
    rw [hio] at hok
    cases hok
  · refine hanswer.trans ?_
    rw [hanswered.shown]
    have hopened : arraysAfter events guarded (opened (Faulty.account MemoryDisk.account)
        guarded.device guarded.store) = opened (Faulty.account MemoryDisk.account)
        guarded.device guarded.store := by
      simp only [hevents, arraysAfter, PageCall.update, PageCall.answer]
      split <;> rfl
    rw [show (⟨guarded.device, guarded.store⟩ : Session (Faulty MemoryDisk)) = guarded from rfl, hopened,
      PageCall.answer, opened, guarded_file]
    rfl

end Session

end PageCatalog
