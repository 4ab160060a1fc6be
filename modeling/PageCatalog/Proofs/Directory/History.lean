import Mathlib.Tactic
import PageCatalog.Proofs.Directory.Operations
import PageCatalog.Proofs.Text.Lossy

/-!
A directory as a register of names, over whole histories.

A register leads from names to root pages. In a history of a new directory, where the
device does not fail and pages do not run out, every answer is that of the register which
the answers before it make up, and every page that is new is one that was never returned.

* `Directory.Lists`: a register written down in order.
* `DirectoryCall.Agrees`, `DirectoryCall.update`: what a register answers, and what an
  answer makes of it.
* `DirectoryCall.step_agrees`: one call.
* `Directory.answers_of_sound`: histories.
-/

namespace PageCatalog

namespace DirectoryAnswer

/-- A call reports trouble. -/
def Troubled : Except Failure DirectoryAnswer → Prop
  | .error e => e.IsTrouble
  | .ok _ => False

lemma not_troubled {r : Except Failure DirectoryAnswer} (h : r.isOk = true) : ¬ Troubled r := by
  cases r with
  | ok _ => exact id
  | error _ => cases h

/-- The pages that a call returns. -/
def pages : Except Failure DirectoryAnswer → List PageId
  | .ok (.root r) => r.toList.map fun r => r.address.page
  | .ok (.entries es) => es.map Entry.page
  | _ => []

end DirectoryAnswer

namespace Directory

/-- Names have bytes of their own. -/
lemma decodeLossy_encode (name : String) : Text.decodeLossy (encode name) = name :=
  Text.decodeLossy_toUTF8 name

/-- Different names have different bytes. -/
lemma encode_injective : Function.Injective encode :=
  Function.LeftInverse.injective decodeLossy_encode

/-! ### Registers -/

/-- The entries of a register, in the order of the bytes of their names. -/
structure Lists (register : String → Option PageId) (es : List Entry) : Prop where
  ascending : es.Pairwise fun a b => a.order b = .lt
  entered : ∀ e, e ∈ es ↔ ∃ name, e.name = encode name ∧ register name = some e.page

variable {register : String → Option PageId} {es : List Entry} {name : String}

/-- Entries are in the order of the bytes of their names. -/
lemma order_eq_lt {a b : Entry} : a.order b = .lt ↔ Entry.key a < Entry.key b :=
  (Bytes.order_compares a.name b.name).eq_lt

lemma Lists.rows_ascending (h : Lists register es) : Rows.Ascending Entry.key es :=
  h.ascending.imp fun hlt => order_eq_lt.mp hlt

/-- An entry has the key of a name if it has its bytes. -/
lemma key_eq_searchKey {e : Entry} : Entry.key e = Entry.key (searchKey name) ↔ e.name = encode name :=
  Bytes.numbers_injective.eq_iff

/-- A lookup in the entries is one in the register. -/
lemma Lists.lookup (h : Lists register es) (name : String) :
    (Rows.lookup Entry.key (searchKey name) es).map Entry.page = register name := by
  cases hpage : register name with
  | none =>
      rw [Option.map_eq_none_iff, Rows.lookup_eq_none]
      intro e he hkey
      obtain ⟨other, hname, hother⟩ := (h.entered e).mp he
      obtain rfl := encode_injective (hname.symm.trans (key_eq_searchKey.mp hkey))
      rw [hpage] at hother
      cases hother
  | some page =>
      have hin : (⟨encode name, page⟩ : Entry) ∈ es := (h.entered _).mpr ⟨name, rfl, hpage⟩
      have hlookup : Rows.lookup Entry.key (searchKey name) es = some ⟨encode name, page⟩ :=
        (Rows.lookup_eq_some h.rows_ascending).mpr ⟨hin, rfl⟩
      rw [hlookup]
      rfl

/-- A page that is entered under a name. -/
lemma Lists.insert (h : Lists register es) (name : String) (page : PageId) :
    Lists (Function.update register name (some page)) (Rows.insert Entry.key ⟨encode name, page⟩ es) where
  ascending := (Rows.insert_ascending h.rows_ascending _).imp fun hlt => order_eq_lt.mpr hlt
  entered e := by
    rw [Rows.mem_insert, h.entered]
    constructor
    · rintro (rfl | ⟨⟨other, hname, hpage⟩, hne⟩)
      · exact ⟨name, rfl, Function.update_self ..⟩
      · have hother : other ≠ name := by
          rintro rfl
          exact hne (key_eq_searchKey.mpr hname)
        exact ⟨other, hname, by rwa [Function.update_of_ne hother]⟩
    · rintro ⟨other, hname, hpage⟩
      by_cases hother : other = name
      · subst hother
        rw [Function.update_self] at hpage
        obtain ⟨bytes, page'⟩ := e
        cases hpage
        exact .inl (congrArg₂ Entry.mk hname rfl)
      · rw [Function.update_of_ne hother] at hpage
        refine .inr ⟨⟨other, hname, hpage⟩, fun hkey => hother (encode_injective ?_)⟩
        exact hname.symm.trans (key_eq_searchKey.mp hkey)

/-- A name that is taken out. -/
lemma Lists.erase (h : Lists register es) (name : String) :
    Lists (Function.update register name none) (Rows.erase Entry.key (searchKey name) es) where
  ascending := (Rows.erase_ascending h.rows_ascending _).imp fun hlt => order_eq_lt.mpr hlt
  entered e := by
    rw [Rows.mem_erase, h.entered, Ne, key_eq_searchKey]
    constructor
    · rintro ⟨⟨other, hname, hpage⟩, hne⟩
      have hother : other ≠ name := by
        rintro rfl
        exact hne hname
      exact ⟨other, hname, by rwa [Function.update_of_ne hother]⟩
    · rintro ⟨other, hname, hpage⟩
      by_cases hother : other = name
      · subst hother
        rw [Function.update_self] at hpage
        cases hpage
      · rw [Function.update_of_ne hother] at hpage
        exact ⟨⟨other, hname, hpage⟩, fun heq => hother (encode_injective (hname.symm.trans heq))⟩

/-- The names of a register, in the order of their bytes. -/
structure ListsNames (register : String → Option PageId) (names : List String) : Prop where
  ascending : names.Pairwise fun a b => Bytes.order (encode a) (encode b) = .lt
  entered : ∀ name, name ∈ names ↔ ∃ page, register name = some page

lemma Lists.names (h : Lists register es) :
    ListsNames register (es.map fun e => Text.decodeLossy e.name) where
  ascending := by
    refine List.pairwise_map.mpr (h.ascending.imp_of_mem fun {a b} ha hb hlt => ?_)
    obtain ⟨name, hname, -⟩ := (h.entered a).mp ha
    obtain ⟨other, hother, -⟩ := (h.entered b).mp hb
    rw [Entry.order, hname, hother] at hlt
    rwa [hname, hother, decodeLossy_encode, decodeLossy_encode]
  entered name := by
    rw [List.mem_map]
    constructor
    · rintro ⟨e, he, rfl⟩
      obtain ⟨name, hname, hpage⟩ := (h.entered e).mp he
      rw [hname, decodeLossy_encode]
      exact ⟨_, hpage⟩
    · rintro ⟨page, hpage⟩
      exact ⟨⟨encode name, page⟩, (h.entered _).mpr ⟨name, rfl, hpage⟩, decodeLossy_encode name⟩

end Directory

/-! ### One call -/

namespace DirectoryCall

open Directory

variable {δ : Type} [Device δ]

/-- How a call is to be answered, by a register of the names that were entered before, when
some pages have been returned already. A name that is too long changes nothing at all, and
a page that is new has the index that no page of the cache had. -/
def Agrees (c : CacheId) (register : String → Option PageId) (returned : List PageId)
    (s : Session δ) (r : Except Failure DirectoryAnswer) (s' : Session δ) : DirectoryCall → Prop
  | obtain name =>
    if Entry.longestName < (encode name).length then
      r = .error (.error (.nameTooLong Entry.longestName (encode name).length name)) ∧ s' = s
    else match register name with
      | some page => r = .ok (.root (some ⟨⟨page, c⟩, false⟩))
      | none => ∃ page, r = .ok (.root (some ⟨⟨page, c⟩, true⟩)) ∧
          page.space? = some .index ∧ page.partition = 0 ∧
          (Session.pageCount c s).1 = .ok page.index ∧ ∀ old ∈ returned, old.index < page.index
  | drop name =>
    if Entry.longestName < (encode name).length then r = .ok (.root none) ∧ s' = s
    else r = .ok (.root ((register name).map fun page => ⟨⟨page, c⟩, false⟩))
  | entries => ∃ es, Lists register es ∧ r = .ok (.entries es)
  | names => ∃ names, ListsNames register names ∧ r = .ok (.names names)
  | size => ∃ es, Lists register es ∧ r = .ok (.number es.length)

/-- What an answer makes of a register. -/
def update (register : String → Option PageId) (r : Except Failure DirectoryAnswer) :
    DirectoryCall → (String → Option PageId)
  | obtain name => match r with
    | .ok (.root (some page)) => Function.update register name (some page.address.page)
    | _ => register
  | drop name => match r with
    | .ok (.root (some _)) => Function.update register name none
    | _ => register
  | _ => register

end DirectoryCall

namespace Directory

variable {δ : Type} [Device δ] {B : Backing δ} {d : Directory} {s : Session δ}
  {register : String → Option PageId} {returned : List PageId}

variable (B) in
/-- A session holds a directory with the names of a register, behind all pages that were
returned. -/
def Registers (d : Directory) (s : Session δ) (register : String → Option PageId)
    (returned : List PageId) : Prop :=
  ∃ D, d.Held B s D ∧ Lists register D.tree.rows ∧ ∀ page ∈ returned, page.index < D.next

/-- Two names are never entered with the same page. -/
lemma Registers.injective (h : d.Registers B s register returned) {a b : String} {i j : PageId}
    (ha : register a = some i) (hb : register b = some j) (hij : i.index = j.index) : a = b := by
  obtain ⟨D, hheld, hlists, -⟩ := h
  have hin : ∀ {name page}, register name = some page → (⟨encode name, page⟩ : Entry) ∈ D.tree.rows :=
    fun {name page} hpage => (hlists.entered _).mpr ⟨name, rfl, hpage⟩
  have heq := hheld.tidy.distinct _ (hin ha) _ (hin hb) hij
  exact encode_injective (congrArg Entry.name heq)

end Directory

namespace DirectoryCall

open Directory

/-! #### Shapes and registers -/

section Shapes

variable {d : Directory} {size : ℕ} {D : DirectoryShape} {register : String → Option PageId}

/-- The answer to a call makes of a register what the call makes of the rows, unless a page was
missing. -/
lemma act_lists (hD : D.Tidy) (hroomy : RowFormat.entries.Roomy size)
    (hlists : Lists register D.tree.rows) (call : DirectoryCall)
    (hspace : (call.act d size D).1 ≠ .error (.error (.outOfSpace d.cache))) :
    Lists (call.update register (call.act d size D).1) (call.act d size D).2.tree.rows := by
  cases call with
  | obtain name =>
      have hlookup := hlists.lookup name
      rw [act] at hspace ⊢
      rw [DirectoryShape.obtain] at hspace ⊢
      split
      · exact hlists
      rename_i hlong
      rw [if_neg hlong] at hspace
      change Option.map Entry.page (D.find? name) = register name at hlookup
      cases hfind : D.find? name with
      | some e =>
          rw [hfind] at hlookup
          change Lists (Function.update register name (some e.page)) D.tree.rows
          rwa [show some e.page = register name from hlookup, Function.update_eq_self]
      | none =>
          rw [hfind] at hspace
          simp only at hspace ⊢
          split at hspace
          · exact absurd rfl hspace
          rename_i hlimit
          rw [if_neg hlimit]
          cases hold : (D.enter size name).old with
          | none =>
              rw [hold] at hspace
              exact absurd rfl hspace
          | some old =>
              change Lists (Function.update register name (some (.make 0 .index D.next)))
                (D.enter size name).tree.rows
              rw [show (D.enter size name).tree.rows = _ from
                (TreeShape.put_rows RowFormat.entries hroomy hD.dense hold).2]
              exact hlists.insert name _
  | drop name =>
      have hlookup := hlists.lookup name
      rw [act, DirectoryShape.drop]
      split
      · exact hlists
      change Option.map Entry.page (D.find? name) = register name at hlookup
      cases hfind : D.find? name with
      | none => exact hlists
      | some e =>
          change Lists (Function.update register name none)
            (D.tree.remove Entry.key (searchKey name)).2.rows
          rw [(TreeShape.remove_ordered hD.ordered (searchKey name)).2.2]
          exact hlists.erase name
  | entries => exact hlists
  | names => exact hlists
  | size => exact hlists

/-- The pages that an answer returns are pages of the cache afterwards. -/
lemma act_pages (hD : D.Tidy) (call : DirectoryCall) :
    ∀ page ∈ DirectoryAnswer.pages (call.act d size D).1, page.index < (call.act d size D).2.next := by
  cases call with
  | obtain name =>
      rw [act, DirectoryShape.obtain]
      split
      · simp [DirectoryAnswer.pages, Except.map]
      · cases hfind : D.find? name with
        | some e =>
            intro page hpage
            obtain rfl : page = e.page := List.mem_singleton.mp hpage
            exact hD.below e (hD.find?_eq_some.mp hfind).1
        | none =>
            simp only
            split
            · simp [DirectoryAnswer.pages, Except.map]
            rename_i hlimit
            split
            · intro page hpage
              obtain rfl : page = .make 0 .index D.next := List.mem_singleton.mp hpage
              rw [DirectoryShape.index_next hlimit]
              exact DirectoryShape.next_lt_enter size name D
            · simp [DirectoryAnswer.pages, Except.map]
  | drop name =>
      rw [act]
      obtain hdrop | ⟨e, he, hdrop⟩ := drop_cases d D name <;> rw [hdrop]
      · simp [DirectoryAnswer.pages]
      · intro page hpage
        obtain rfl : page = e.page := List.mem_singleton.mp hpage
        exact hD.below e (hD.find?_eq_some.mp he).1
  | entries =>
      intro page hpage
      obtain ⟨e, he, rfl⟩ := List.mem_map.mp hpage
      exact hD.below e he
  | names => simp [act, DirectoryAnswer.pages]
  | size => simp [act, DirectoryAnswer.pages]

end Shapes

/-! #### Answers -/

variable {δ : Type} [Device δ] {B : Backing δ} {d : Directory} {s s' : Session δ} {D : DirectoryShape}
  {register : String → Option PageId} {returned : List PageId}

/-- The answer of a shape is that of the register that lists its rows. -/
lemma agrees_of_act (hheld : d.Held B s D) (hlists : Lists register D.tree.rows)
    (hreturned : ∀ page ∈ returned, page.index < D.next) (call : DirectoryCall)
    (hshort : ∀ name, call = .obtain name ∨ call = .drop name →
      ¬ Entry.longestName < (encode name).length)
    (hspace : (call.act d s.size D).1 ≠ .error (.error (.outOfSpace d.cache))) :
    call.Agrees d.cache register returned s (call.act d s.size D).1 s' := by
  cases call with
  | obtain name =>
      have hlong := hshort name (.inl rfl)
      have hlookup := hlists.lookup name
      change Option.map Entry.page (D.find? name) = register name at hlookup
      rw [Agrees, if_neg hlong]
      rw [act, DirectoryShape.obtain, if_neg hlong] at hspace ⊢
      rw [← hlookup]
      cases hfind : D.find? name with
      | some e => rfl
      | none =>
          rw [hfind] at hspace
          simp only [Option.map_none] at hspace ⊢
          split at hspace
          · exact absurd rfl hspace
          rename_i hlimit
          rw [if_neg hlimit]
          cases hold : (D.enter s.size name).old with
          | none =>
              rw [hold] at hspace
              exact absurd rfl hspace
          | some old =>
              refine ⟨.make 0 .index D.next, rfl, PageId.space?_make .., PageId.partition_make .., ?_, ?_⟩
              · rw [Session.pageCount_run hheld.next, DirectoryShape.index_next hlimit]
              · rwa [DirectoryShape.index_next hlimit]
  | drop name =>
      have hlong := hshort name (.inr rfl)
      have hlookup := hlists.lookup name
      change Option.map Entry.page (D.find? name) = register name at hlookup
      rw [Agrees, if_neg hlong, act, DirectoryShape.drop, if_neg hlong, ← hlookup]
      cases hfind : D.find? name <;> rfl
  | entries => exact ⟨_, hlists, rfl⟩
  | names => exact ⟨_, hlists.names, rfl⟩
  | size => exact ⟨_, hlists, rfl⟩

variable (B) in
/-- A call has met trouble, or it has answered as the register does and left the register
that its answer makes. -/
def Meets (d : Directory) (register : String → Option PageId) (returned : List PageId)
    (s : Session δ) (call : DirectoryCall) (r : Except Failure DirectoryAnswer) (s' : Session δ) :
    Prop :=
  DirectoryAnswer.Troubled r ∨ call.Agrees d.cache register returned s r s' ∧
    d.Registers B s' (call.update register r) (returned ++ DirectoryAnswer.pages r)

/-- A name that is too long is refused at once. -/
lemma meets_long (h : d.Registers B s register returned) {call : DirectoryCall} {name : String}
    (hcall : call = .obtain name ∨ call = .drop name)
    (hlong : Entry.longestName < (encode name).length) :
    Meets B d register returned s call (call.step d s).1 (call.step d s).2 := by
  obtain rfl | rfl := hcall
  · have hrun : (DirectoryCall.obtain name).step d s
        = (.error (.error (.nameTooLong Entry.longestName (encode name).length name)), s) := by
      rw [step, Directory.obtain, if_pos hlong]
      rfl
    rw [hrun, Meets, Agrees, if_pos hlong]
    exact .inr ⟨⟨rfl, rfl⟩, (List.append_nil returned).symm ▸ h⟩
  · have hrun : (DirectoryCall.drop name).step d s = (.ok (.root none), s) := by
      rw [step, Directory.drop, if_pos hlong]
      rfl
    rw [hrun, Meets, Agrees, if_pos hlong]
    exact .inr ⟨⟨rfl, rfl⟩, (List.append_nil returned).symm ▸ h⟩

/-- Every call meets trouble or agrees with the register. -/
theorem step_agrees (h : d.Registers B s register returned) (call : DirectoryCall) :
    Meets B d register returned s call (call.step d s).1 (call.step d s).2 := by
  by_cases hlong : ∃ name, (call = .obtain name ∨ call = .drop name) ∧
      Entry.longestName < (encode name).length
  · obtain ⟨name, hcall, hlong⟩ := hlong
    exact meets_long h hcall hlong
  have hshort : ∀ name, call = .obtain name ∨ call = .drop name →
      ¬ Entry.longestName < (encode name).length := fun name hcall hlt => hlong ⟨name, hcall, hlt⟩
  obtain ⟨D, hheld, hlists, hreturned⟩ := h
  have hmeets : ∀ r s', (call.act d s.size D).1 = r → d.Moves B s D call s' →
      ¬ DirectoryAnswer.Troubled r → Meets B d register returned s call r s' := by
    rintro _ s' rfl hmoves hsound
    have hspace : (call.act d s.size D).1 ≠ .error (.error (.outOfSpace d.cache)) := fun hfull =>
      hsound (by rw [hfull]; exact .inr ⟨_, rfl⟩)
    refine .inr ⟨agrees_of_act hheld hlists hreturned call hshort hspace, _, hmoves.held,
      act_lists hheld.tidy hheld.roomy hlists call hspace, fun page hpage => ?_⟩
    obtain hpage | hpage := List.mem_append.mp hpage
    · exact (hreturned page hpage).trans_le (next_le_act call)
    · exact act_pages hheld.tidy call page hpage
  apply Ends.result (P := fun r s' => Meets B d register returned s call r s')
  refine (hheld.step_ends call).mono (fun a s' h => hmeets _ s' h.1 h.2 id) fun e s' h => ?_
  by_cases hsound : DirectoryAnswer.Troubled (.error e)
  · exact .inl hsound
  · obtain hfails | ⟨hact, hmoves⟩ := h
    · exact absurd (.inl hfails.isIo) hsound
    · exact hmeets _ s' hact hmoves hsound

end DirectoryCall

/-! ### Histories -/

namespace Directory

variable {δ : Type} [Device δ] {B : Backing δ} {d : Directory} {s : Session δ}
  {register : String → Option PageId} {returned : List PageId}

/-- No call of a history meets trouble. -/
def Sound (d : Directory) : List DirectoryCall → Session δ → Prop
  | [], _ => True
  | call :: rest, s => ¬ DirectoryAnswer.Troubled (call.step d s).1 ∧ d.Sound rest (call.step d s).2

/-- The session after some calls. -/
def sessionAfter (d : Directory) : List DirectoryCall → Session δ → Session δ
  | [], s => s
  | call :: rest, s => d.sessionAfter rest (call.step d s).2

/-- The register that the answers to some calls make of a register. -/
def registered (d : Directory) : List DirectoryCall → Session δ → (String → Option PageId) →
    (String → Option PageId)
  | [], _, register => register
  | call :: rest, s, register =>
    d.registered rest (call.step d s).2 (call.update register (call.step d s).1)

/-- The pages that some calls return. -/
def returnedBy (d : Directory) : List DirectoryCall → Session δ → List PageId
  | [], _ => []
  | call :: rest, s =>
    DirectoryAnswer.pages (call.step d s).1 ++ d.returnedBy rest (call.step d s).2

/-- A sound history keeps the register that its answers make. -/
lemma Registers.history (h : d.Registers B s register returned) {calls : List DirectoryCall}
    (hcalls : d.Sound calls s) :
    d.Registers B (d.sessionAfter calls s) (d.registered calls s register)
      (returned ++ d.returnedBy calls s) := by
  induction calls generalizing s register returned with
  | nil => rwa [returnedBy, List.append_nil]
  | cons call rest ih =>
      obtain ⟨hsound, hrest⟩ := hcalls
      obtain htrouble | ⟨-, hregisters⟩ := DirectoryCall.step_agrees h call
      · exact absurd htrouble hsound
      · rw [returnedBy, ← List.append_assoc]
        exact ih hregisters hrest

/-- A history is sound if both of its parts are. -/
lemma sound_append {before after : List DirectoryCall} :
    d.Sound (before ++ after) s ↔ d.Sound before s ∧ d.Sound after (d.sessionAfter before s) := by
  induction before generalizing s with
  | nil => simp [Sound, sessionAfter]
  | cons call rest ih => simp [Sound, sessionAfter, ih, and_assoc]

/-- All calls of a history are answered. -/
def answered (d : Directory) : List DirectoryCall → Session δ → Bool
  | [], _ => true
  | call :: rest, s => (call.step d s).1.isOk && d.answered rest (call.step d s).2

lemma sound_of_answered {calls : List DirectoryCall}
    (h : d.answered calls s = true) : d.Sound calls s := by
  induction calls generalizing s with
  | nil => trivial
  | cons call rest ih =>
      rw [answered, Bool.and_eq_true] at h
      exact ⟨DirectoryAnswer.not_troubled h.1, ih h.2⟩

/-- A new directory has no names. -/
lemma registers_of_start {folder : String} {options : Options} {e e' : δ} {store : PageStore}
    (hstore : Session.start folder options e = (.ok store, e')) {c : CacheId}
    (hfresh : ∃ root, ((⟨c⟩ : Directory).tree.root ⟨e', store⟩).1 = .ok root ∧ root.word = 0)
    (hstart : Directory.start c ⟨e', store⟩ = (.ok d, s)) :
    d.cache = c ∧ d.Registers (.none δ) s (fun _ => none) [] := by
  obtain ⟨root, hroot, hword⟩ := hfresh
  obtain ⟨rfl, n, -, hheld, -⟩ := held_of_start hstore (Prod.ext hroot rfl) hword hstart
  refine ⟨rfl, blankShape n, hheld, ⟨List.Pairwise.nil, fun e => ?_⟩, by simp⟩
  exact ⟨fun he => absurd he List.not_mem_nil, fun ⟨_, _, hpage⟩ => by cases hpage⟩

/-- A directory that was made anew is a register of names: in every history that meets no
trouble, each call is answered by the register which the answers before it make up, a new
page is none that was ever in use, and no page is entered under two names. -/
theorem answers_of_sound {folder : String} {options : Options} {e e' : δ} {store : PageStore}
    (hstore : Session.start folder options e = (.ok store, e')) {c : CacheId}
    (hfresh : ∃ root, ((⟨c⟩ : Directory).tree.root ⟨e', store⟩).1 = .ok root ∧ root.word = 0)
    (hstart : Directory.start c ⟨e', store⟩ = (.ok d, s)) {before after : List DirectoryCall}
    {call : DirectoryCall} (hcalls : d.Sound (before ++ call :: after) s) :
    call.Agrees c (d.registered before s fun _ => none) (d.returnedBy before s)
        (d.sessionAfter before s) (call.step d (d.sessionAfter before s)).1
        (call.step d (d.sessionAfter before s)).2 ∧
      ∀ a b i j, d.registered before s (fun _ => none) a = some i →
        d.registered before s (fun _ => none) b = some j → i.index = j.index → a = b := by
  obtain ⟨rfl, hregisters⟩ := registers_of_start hstore hfresh hstart
  obtain ⟨hbefore, hsound, -⟩ := sound_append.mp hcalls
  have hafter := hregisters.history hbefore
  rw [List.nil_append] at hafter
  obtain htrouble | ⟨hagrees, -⟩ := DirectoryCall.step_agrees hafter call
  · exact absurd htrouble hsound
  · exact ⟨hagrees, fun a b i j ha hb hij => hafter.injective ha hb hij⟩

/-- A name that was dropped is given another page when it is obtained again. -/
theorem answers_of_obtain_again :
    ∃ s : Session MemoryDisk, Directory.start 1 .blank = (.ok ⟨1⟩, s) ∧
      ∃ page, ((DirectoryCall.obtain "a").step ⟨1⟩
          ((⟨1⟩ : Directory).sessionAfter [.obtain "a", .drop "a"] s)).1
            = .ok (.root (some ⟨⟨page, 1⟩, true⟩)) ∧
        ∀ old ∈ (⟨1⟩ : Directory).returnedBy [.obtain "a", .drop "a"] s, old.index < page.index := by
  -- the session is hidden, so that nothing evaluates it again
  obtain ⟨s, hstart, hfirst, hsecond, hthird, hregistered⟩ :
      ∃ s : Session MemoryDisk, Directory.start 1 .blank = (.ok ⟨1⟩, s) ∧
        ((DirectoryCall.obtain "a").step ⟨1⟩ s).1.isOk = true ∧
        ((DirectoryCall.drop "a").step ⟨1⟩
          ((⟨1⟩ : Directory).sessionAfter [.obtain "a"] s)).1.isOk = true ∧
        ((DirectoryCall.obtain "a").step ⟨1⟩
          ((⟨1⟩ : Directory).sessionAfter [.obtain "a", .drop "a"] s)).1.isOk = true ∧
        (⟨1⟩ : Directory).registered [.obtain "a", .drop "a"] s (fun _ => none) "a" = none := by
    obtain ⟨⟨⟩, hmade⟩ := run_of_isOk (show ((⟨1⟩ : Directory).tree.start none .blank).1.isOk = true by
      decide +kernel)
    refine ⟨((⟨1⟩ : Directory).tree.start none .blank).2, ?_, by decide +kernel, by decide +kernel,
      by decide +kernel, by decide +kernel⟩
    rw [Directory.start, run_bind_ok hmade]
    rfl
  have hcalls : (⟨1⟩ : Directory).Sound ([.obtain "a", .drop "a"] ++ .obtain "a" :: []) s :=
    ⟨DirectoryAnswer.not_troubled hfirst, DirectoryAnswer.not_troubled hsecond,
      DirectoryAnswer.not_troubled hthird, trivial⟩
  obtain ⟨hagrees, -⟩ :=
    answers_of_sound Session.blank_start ⟨⟨0⟩, by decide +kernel, rfl⟩ hstart hcalls
  rw [DirectoryCall.Agrees, if_neg (by decide +kernel), hregistered] at hagrees
  obtain ⟨page, hanswer, -, -, -, hnew⟩ := hagrees
  exact ⟨s, hstart, page, hanswer, hnew⟩

end Directory

end PageCatalog
