import Mathlib.Tactic
import PageCatalog.Proofs.Directory.History
import PageCatalog.Proofs.Directory.Reopening

/-!
A directory over many sessions.

A session opens the store and the directory, and goes on with calls and flushes. What was
done before its last flush is there for the next session; what was done behind it is lost,
and the pages that were taken are taken again.

* `DirectoryRecord`: what is known of a directory from the answers that it gave.
* `DirectoryCall.act_full`: what is left of a register where a page was missing.
* `Visit`, `Chronicle`: a single session, and one after the other.
* `Directory.Filed`, `Directory.Rests`: a file and its device between two sessions;
  `Rests.opens`.
* `Directory.Recorded`: a session; `Recorded.call`, `Recorded.flush`.
* `Rests.visit`, `Directory.chronicle_rests`: all moments of a session, and all sessions.
* `Recorded.answers`: calls.
-/

namespace PageCatalog

/-! ### Records -/

/-- What is known of a directory: the names that are entered, the pages that were returned, and
how many pages the cache had at each flush. -/
structure DirectoryRecord where
  names : String → Option PageId
  returned : List PageId
  counts : List ℕ

namespace DirectoryRecord

/-- Nothing is known of a directory that was never opened. -/
def blank : DirectoryRecord := ⟨fun _ => none, [], []⟩

/-- What is known after the answer to a call. -/
def after (R : DirectoryRecord) (call : DirectoryCall) (r : Except Failure DirectoryAnswer) :
    DirectoryRecord :=
  ⟨call.update R.names r, R.returned ++ DirectoryAnswer.pages r, R.counts⟩

/-- What is known after a flush of so many pages. -/
def flushed (R : DirectoryRecord) (n : ℕ) : DirectoryRecord := { R with counts := R.counts ++ [n] }

/-- A shape of a directory goes with a record. -/
structure Fits (R : DirectoryRecord) (D : DirectoryShape) : Prop where
  lists : Directory.Lists R.names D.tree.rows
  returned : ∀ page ∈ R.returned, page.index < D.next
  counts : ∀ n ∈ R.counts, n ≤ D.next

variable {R : DirectoryRecord} {d : Directory} {size : ℕ} {D : DirectoryShape}

lemma fits_blank (n : ℕ) : blank.Fits (Directory.blankShape n) where
  lists := ⟨List.Pairwise.nil, fun _ => ⟨fun he => absurd he List.not_mem_nil, fun ⟨_, _, h⟩ => by cases h⟩⟩
  returned _ hpage := absurd hpage List.not_mem_nil
  counts _ hn := absurd hn List.not_mem_nil

lemma Fits.after (h : R.Fits D) (hD : D.Tidy) (hroomy : RowFormat.entries.Roomy size)
    (call : DirectoryCall) (hspace : (call.act d size D).1 ≠ .error (.error (.outOfSpace d.cache))) :
    (R.after call (call.act d size D).1).Fits (call.act d size D).2 where
  lists := DirectoryCall.act_lists hD hroomy h.lists call hspace
  returned page hpage := by
    obtain hpage | hpage := List.mem_append.mp hpage
    · exact (h.returned page hpage).trans_le (DirectoryCall.next_le_act call)
    · exact DirectoryCall.act_pages hD call page hpage
  counts n hn := (h.counts n hn).trans (DirectoryCall.next_le_act call)

lemma Fits.flushed (h : R.Fits D) : (R.flushed D.next).Fits D where
  lists := h.lists
  returned := h.returned
  counts n hn := by
    obtain hn | hn := List.mem_append.mp hn
    · exact h.counts n hn
    · exact (List.mem_singleton.mp hn).le

end DirectoryRecord

namespace Directory

/-- Entries in order that are those of names are the entries of a register. -/
lemma exists_lists {es : List Entry} (hasc : Rows.Ascending Entry.key es)
    (hnames : ∀ e ∈ es, ∃ name, e.name = encode name) : ∃ names, Lists names es := by
  refine ⟨fun name => (Rows.lookup Entry.key (searchKey name) es).map Entry.page,
    hasc.imp fun h => order_eq_lt.mpr h, fun e => ⟨fun he => ?_, ?_⟩⟩
  · obtain ⟨name, hname⟩ := hnames e he
    have hlookup := (Rows.lookup_eq_some hasc).mpr ⟨he, key_eq_searchKey.mpr hname⟩
    exact ⟨name, hname, by rw [hlookup]; rfl⟩
  · rintro ⟨name, hname, hpage⟩
    obtain ⟨e', hlookup, hpage⟩ := Option.map_eq_some_iff.mp hpage
    obtain ⟨he', hkey⟩ := (Rows.lookup_eq_some hasc).mp hlookup
    obtain rfl : e' = e := by
      rw [key_eq_searchKey, ← hname] at hkey
      cases e'
      cases e
      exact congrArg₂ Entry.mk hkey hpage
    exact he'

/-- What remains of a register when its entries are left out or that of one name is replaced. -/
lemma Lists.exists_remaining {register : String → Option PageId} {es es' : List Entry} {name : String}
    (h : Lists register es) (hasc : Rows.Ascending Entry.key es')
    (hentry : ∀ e ∈ es', e.name = encode name ∨ e ∈ es) :
    ∃ names, Lists names es' ∧
      ∀ other, other ≠ name → names other = none ∨ names other = register other := by
  obtain ⟨names, hnames⟩ := exists_lists hasc fun e he =>
    (hentry e he).elim (fun h => ⟨name, h⟩) fun hin => ((h.entered e).mp hin).imp fun _ h => h.1
  refine ⟨names, hnames, fun other hother => ?_⟩
  cases hpage : names other with
  | none => exact .inl rfl
  | some page =>
      have hin := (hnames.entered ⟨encode other, page⟩).mpr ⟨other, rfl, hpage⟩
      obtain hnew | hin := hentry _ hin
      · exact absurd (encode_injective hnew) hother
      · obtain ⟨name', hname', hregister⟩ := (h.entered _).mp hin
        obtain rfl := encode_injective hname'
        exact .inr hregister.symm

end Directory

namespace DirectoryCall

open Directory

variable {d : Directory} {size : ℕ} {D : DirectoryShape} {register : String → Option PageId}

/-- A shape refuses a call for the sake of the name, or because it lacks a page. -/
lemma act_refused {call : DirectoryCall} {e : Failure} (h : (call.act d size D).1 = .error e) :
    (∃ most length name, e = .error (.nameTooLong most length name)) ∨ e = .error (.outOfSpace d.cache) := by
  cases call with
  | obtain name =>
      rw [act, DirectoryShape.obtain] at h
      split at h
      · exact .inl ⟨_, _, _, (Except.error.inj h).symm⟩
      split at h
      · cases h
      split at h
      · exact .inr (Except.error.inj h).symm
      · split at h
        · cases h
        · exact .inr (Except.error.inj h).symm
  | drop name => cases h
  | entries => cases h
  | names => cases h
  | size => cases h

/-- A page that is handed out for the first time has an index that was not taken. -/
lemma next_le_allocated {call : DirectoryCall} {root : RootPage}
    (hact : (call.act d size D).1 = .ok (.root (some root))) (hallocated : root.allocated = true) :
    D.next ≤ root.address.page.index := by
  cases call with
  | obtain name =>
      rw [act] at hact
      cases hanswer : (D.obtain d size name).1 with
      | error e =>
          rw [hanswer] at hact
          cases hact
      | ok r =>
          rw [hanswer] at hact
          cases hact
          exact (obtain_allocated hanswer hallocated).1.ge
  | drop name =>
      obtain hdrop | ⟨e, -, hdrop⟩ := drop_cases d D name
      · rw [act, hdrop] at hact
        cases hact
      · rw [act, hdrop] at hact
        cases hact
        cases hallocated
  | entries => cases hact
  | names => cases hact
  | size => cases hact

/-- Where a page is missing, a new name was to be entered and the last index is taken. Some names
may be lost, but none has another page than before, unless it is the new one. -/
lemma act_full (hD : D.Tidy) (hroomy : RowFormat.entries.Roomy size)
    (hlists : Lists register D.tree.rows) {call : DirectoryCall}
    (hfull : (call.act d size D).1 = .error (.error (.outOfSpace d.cache))) :
    (∃ name, call = .obtain name ∧ register name = none) ∧
      CacheFile.indexLimit ≤ (call.act d size D).2.next ∧
      ∃ names, Lists names (call.act d size D).2.tree.rows ∧
        ∀ name, call ≠ .obtain name → names name = none ∨ names name = register name := by
  cases call with
  | obtain name =>
      have hlookup := hlists.lookup name
      change Option.map Entry.page (D.find? name) = register name at hlookup
      rw [act] at hfull ⊢
      rw [DirectoryShape.obtain] at hfull ⊢
      split at hfull
      · cases hfull
      rename_i hlong
      rw [if_neg hlong]
      cases hfind : D.find? name with
      | some e =>
          rw [hfind] at hfull
          cases hfull
      | none =>
          rw [hfind] at hfull hlookup
          refine ⟨⟨name, rfl, hlookup.symm⟩, ?_⟩
          simp only at hfull ⊢
          split at hfull
          · rename_i hlimit
            rw [if_pos hlimit]
            exact ⟨hlimit, register, hlists, fun _ _ => .inr rfl⟩
          rename_i hlimit
          rw [if_neg hlimit]
          -- The entry has a page of its own, but its tree had none to grow with.
          cases hold : (D.enter size name).old with
          | some old =>
              rw [hold] at hfull
              cases hfull
          | none =>
              obtain ⟨hdense, hrows⟩ := TreeShape.put_dense RowFormat.entries hroomy hD.dense
                (D.newEntry name) (D.next + 1)
              refine ⟨TreeShape.next_of_missing _ hD.ordered hold, ?_⟩
              obtain ⟨names, hnames, hkept⟩ := hlists.exists_remaining hdense.ordered.ascending
                fun e he => (Rows.mem_insert.mp (hrows e he)).imp (congrArg Entry.name) And.left
              exact ⟨names, hnames, fun other hother => hkept other fun h => hother (congrArg obtain h.symm)⟩
  | drop name => cases hfull
  | entries => cases hfull
  | names => cases hfull
  | size => cases hfull

end DirectoryCall

/-! ### Sessions -/

section Sessions

open Directory

variable {δ : Type} [Device δ]

/-- The moments of a session of a directory: the session, what is known with what was done in it,
and what is known if it ends here. -/
inductive Visit (folder : String) (options : Options) (c : CacheId) (d₀ : δ) (kept₀ : DirectoryRecord) :
    Session δ → DirectoryRecord → DirectoryRecord → Prop
  | opened {d : δ} {store : PageStore} {s : Session δ}
      (hstore : Session.start folder options d₀ = (.ok store, d))
      (hstart : Directory.start c ⟨d, store⟩ = (.ok ⟨c⟩, s)) : Visit folder options c d₀ kept₀ s kept₀ kept₀
  | call {s : Session δ} {now kept : DirectoryRecord} (h : Visit folder options c d₀ kept₀ s now kept)
      (call : DirectoryCall) (hspace : (call.step ⟨c⟩ s).1 ≠ .error (.error (.outOfSpace c))) :
      Visit folder options c d₀ kept₀ (call.step ⟨c⟩ s).2 (now.after call (call.step ⟨c⟩ s).1) kept
  /-- Where a page was missing, the names are those that are still listed. -/
  | full {s : Session δ} {now kept : DirectoryRecord} (h : Visit folder options c d₀ kept₀ s now kept)
      (call : DirectoryCall) (hfull : (call.step ⟨c⟩ s).1 = .error (.error (.outOfSpace c)))
      {es : List Entry} (hes : ((⟨c⟩ : Directory).entries (call.step ⟨c⟩ s).2).1 = .ok es)
      {names : String → Option PageId} (hnames : Lists names es) :
      Visit folder options c d₀ kept₀ (call.step ⟨c⟩ s).2 { now with names } kept
  | flush {s s' : Session δ} {now kept : DirectoryRecord} (h : Visit folder options c d₀ kept₀ s now kept)
      {n : ℕ} (hn : (Session.pageCount c s).1 = .ok n) (o : Schedule)
      (hflush : Session.flushIn o s = (.ok (), s')) :
      Visit folder options c d₀ kept₀ s' (now.flushed n) (now.flushed n)

variable {A : Device.Account δ} {folder : String} {own : Set String} (V : A.Service folder own)
  (options : Options) (c : CacheId)

/-- The states of a device between the sessions of a directory whose file was empty at first, and
what is known. The folder need not be there at first, but can be made. -/
inductive Chronicle : δ → DirectoryRecord → Prop
  | new {d : δ} (hhonest : A.Honest d)
      (hmade : Ends (Device.makeDirs folder) d (fun _ d' => V.Ready d') fun _ _ => False)
      (hempty : A.bytes d (PageStore.pathOf { folder, options } c) = []) : Chronicle d .blank
  | session {d : δ} {s : Session δ} {kept now kept' : DirectoryRecord} (h : Chronicle d kept)
      (hvisit : Visit folder options c d kept s now kept') : Chronicle s.device kept'

namespace Directory

/-- A file between two sessions: nothing was ever written to it, or what is known was written to
it by a flush. -/
inductive Filed (file : Bytes) : DirectoryRecord → Prop
  | blank (hempty : file = []) : Filed file .blank
  | saved {s : Session δ} {D : DirectoryShape} {R : DirectoryRecord} (hs : s.Backed A c)
      (hclean : ∀ i, s.Clean c i) (hopen : c ∈ s.store.caches) (hsize : s.size = options.pageSize)
      (hfile : s.file A c = file) (hheld : (⟨c⟩ : Directory).Held (.served V) s D) (hfits : R.Fits D) :
      Filed file R

/-- A session holds a directory with all that is known of it, over a file that keeps what is known
if it ends here. -/
structure Recorded (s : Session δ) (now kept : DirectoryRecord) : Prop where
  solo : Solo A c s
  ready : V.Ready s.device
  folder_eq : s.store.folder = folder
  options_eq : s.store.options = options
  few : (s.file A c).length < 0x100000000 * s.size
  held : ∃ D, (⟨c⟩ : Directory).Held (.served V) s D ∧ now.Fits D
  file : Filed V options c (s.file A c) kept

/-- A device between two sessions, with the file of the directory. -/
structure Rests (d : δ) (R : DirectoryRecord) : Prop where
  honest : A.Honest d
  made : Ends (Device.makeDirs folder) d (fun _ d' => V.Ready d') fun _ _ => False
  few : (A.bytes d (PageStore.pathOf { folder, options } c)).length < 0x100000000 * options.pageSize
  file : Filed V options c (A.bytes d (PageStore.pathOf { folder, options } c)) R

end Directory

end Sessions

namespace Directory

variable {δ : Type} [Device δ] {A : Device.Account δ} {folder : String} {own : Set String}
  {V : A.Service folder own} {options : Options} {c : CacheId} {s s' : Session δ} {now kept R : DirectoryRecord} {d : δ}

/-- The cache of a directory that is held is open. -/
lemma Held.mem_caches {B : Backing δ} {D : DirectoryShape} (h : (⟨c⟩ : Directory).Held B s D) :
    c ∈ s.store.caches := by
  obtain ⟨k, hk, -⟩ := Option.map_eq_some_iff.mp h.next
  exact Std.TreeMap.mem_iff_isSome_getElem?.mpr (by rw [hk]; rfl)

/-! #### Opening -/

/-- A file between two sessions has whole pages. -/
lemma Filed.whole {file : Bytes} (h : Filed V options c file R) : options.pageSize ∣ file.length := by
  cases h with
  | blank hempty => exact hempty ▸ dvd_zero _
  | saved hs hclean hopen hsize hfile =>
      rw [← hsize, ← hfile]
      exact (Session.ofFile_of_clean hs hclean hopen (.refl _ _)).1

/-- From an open cache over the file the directory starts with all that is known of it. -/
lemma Filed.start_ends {file : Bytes} {k : CacheFile} (h : Filed V options c file R)
    (husual : 512 ≤ s.size ∧ s.size ≤ 65536) (hsize : s.size = options.pageSize)
    (hfew : file.length < 0x100000000 * options.pageSize) (hs : s.Backed A c)
    (hready : V.Ready s.device) (hk : s.store.caches[c]? = some k)
    (harray : s.array A c = .ofFile file s.size) :
    Ends (Directory.start c) s
      (fun d s' => d = ⟨c⟩ ∧ ∃ D, (⟨c⟩ : Directory).Held (.served V) s' D ∧ R.Fits D)
      fun _ _ => False := by
  cases h with
  | blank hempty =>
      rw [hempty] at harray
      obtain ⟨hnext, hzeros⟩ := Session.shows_zeros hs hready hk harray
      refine (start_blank husual hnext hzeros).mono_ok ?_
      exact fun _ _ h => ⟨h.1, _, h.2, DirectoryRecord.fits_blank 1⟩
  | @saved s₀ D _ hs₀ hclean hopen hsize₀ hfile hheld hfits =>
      have hsizes : s.size = s₀.size := hsize.trans hsize₀.symm
      rw [← hfile, hsizes] at harray
      obtain ⟨hnext, hshows⟩ := Session.shows_reopened hs₀ hclean hopen
        (by rw [hfile, hsize₀]; exact hfew) hs hready hk harray
      have hheld' := hheld.transport hsizes (hnext.trans hheld.next) hshows
      refine hheld'.start_ends.mono ?_ fun e _ h => Backing.served_not_fails e h
      exact fun _ _ h => ⟨h.1, _, hheld'.quiet h.2, hfits⟩

section Opening

variable (hcheck : options.check = .ok ()) (hcreate : options.createIfMissing = true)
  (hown : PageStore.pathOf { folder, options } c ∈ own)
  (hapart : ∀ c', c' ≠ c → A.Apart (PageStore.pathOf { folder, options } c')
    (PageStore.pathOf { folder, options } c))
include hcheck hcreate hown hapart

/-- A directory is opened over a file that keeps what is known of it. -/
lemma Rests.opens (hrests : Rests V options c d R) :
    ∃ store d' s, Session.start folder options d = (.ok store, d') ∧
      Directory.start c ⟨d', store⟩ = (.ok ⟨c⟩, s) ∧ Recorded V options c s R R := by
  obtain ⟨hhonest, hmade, hfew, h⟩ := hrests
  set file := A.bytes d (PageStore.pathOf { folder, options } c) with hfile
  obtain ⟨store, d', hstore, hready'⟩ := Session.start_made hcheck hcreate hmade
  obtain ⟨hbacked, hstays, harray⟩ := Session.start_backed (A := A) (c := c) hstore hhonest
    (by obtain ⟨-, rfl, -⟩ := Session.store_of_start hstore; exact hapart)
    (by obtain ⟨-, rfl, -⟩ := Session.store_of_start hstore; exact h.whole)
  have husual := Session.size_of_start hstore
  obtain ⟨-, rfl, -⟩ := Session.store_of_start hstore
  set s₀ : Session δ := ⟨d', { folder, options }⟩ with hs₀
  have hsolo : Solo A c s₀ := by
    refine ⟨hbacked, fun i => ?_, fun c' hc' => absurd hc' Std.TreeMap.not_mem_emptyc⟩
    rw [harray]
    exact PageArray.spent_ofFile _ _ i
  -- the cache is opened, and then the directory
  have hopening := (Session.cacheFile_turns hbacked).and
    (Session.cacheFile_served hbacked ⟨hready', hown, .inl hcreate⟩)
  rcases hopen : Session.cacheFile c s₀ with ⟨e | k, s₁⟩
  · exact (hopening.error hopen).2.elim
  obtain ⟨⟨hk, hturns⟩, hready₁⟩ := hopening.ok hopen
  have hsize₁ : s₁.size = options.pageSize := hturns.size
  have hends := h.start_ends (by rwa [hsize₁]) hsize₁ hfew hturns.backed hready₁ hk
    (by rw [hturns.array, harray, hsize₁])
  rcases hstart : Directory.start c s₁ with ⟨e | dir, s⟩
  · exact (hends.error hstart).elim
  obtain ⟨rfl, hheld⟩ := hends.ok hstart
  have hstart₀ : Directory.start c s₀ = (.ok ⟨c⟩, s) := (start_opened hopen hk).trans hstart
  have hsolo' := hsolo.within (start_within c)
  rw [hstart₀] at hsolo'
  have hminds := (start_within c).minds hbacked.honest
  rw [hstart₀] at hminds
  have hready' := (start_within c).ready (V := V) hturns.backed.honest hready₁
    (Std.TreeMap.mem_iff_isSome_getElem?.mpr (by rw [hk]; rfl))
  rw [hstart] at hready'
  have hsame : s.file A c = file := by
    rw [Session.file, hminds.stays.bytes, hstays.bytes, PageStore.pathOf, hminds.folder]
    rfl
  exact ⟨_, d', s, hstore, hstart₀, hsolo', hready', hminds.folder, hminds.only.options,
    by rw [hsame, Session.size, hminds.only.options]; exact hfew, hheld, hsame ▸ h⟩

end Opening

/-! #### Calls and flushes -/

/-- Whatever is done with the pages of the cache, the file keeps what it kept. -/
lemma Recorded.within {α : Type} {m : SessionM δ α} (h : Recorded V options c s now kept)
    (hm : Session.Within c m)
    (hheld : ∃ D, (⟨c⟩ : Directory).Held (.served V) (m s).2 D ∧ R.Fits D) :
    Recorded V options c (m s).2 R kept := by
  have hminds := hm.minds h.solo.backed.honest
  have hfile : (m s).2.file A c = s.file A c := by
    rw [Session.file, hminds.stays.bytes, PageStore.pathOf, hminds.folder]
    rfl
  have hopen : c ∈ s.store.caches := h.held.elim fun _ h => h.1.mem_caches
  exact ⟨h.solo.within hm, hm.ready h.solo.backed.honest h.ready hopen, hminds.folder.trans h.folder_eq,
    hminds.only.options.trans h.options_eq,
    by rw [hfile, Session.size, hminds.only.options]; exact h.few, hheld, hfile ▸ h.file⟩

/-- A call is answered as the shape of the directory says. -/
lemma Recorded.acts (h : Recorded V options c s now kept) (call : DirectoryCall) :
    ∃ D, (⟨c⟩ : Directory).Held (.served V) s D ∧ now.Fits D ∧
      (call.act ⟨c⟩ s.size D).1 = (call.step ⟨c⟩ s).1 ∧
      (⟨c⟩ : Directory).Held (.served V) (call.step ⟨c⟩ s).2 (call.act ⟨c⟩ s.size D).2 := by
  obtain ⟨D, hheld, hfits⟩ := h.held
  refine ⟨D, hheld, hfits, Ends.result (P := fun r s' => (call.act ⟨c⟩ s.size D).1 = r ∧
    (⟨c⟩ : Directory).Held (.served V) s' (call.act ⟨c⟩ s.size D).2) ((hheld.step_ends call).mono ?_ ?_)⟩
  · exact fun a s' h => ⟨h.1, h.2.held⟩
  · rintro e s' (hfails | ⟨hact, hmoves⟩)
    · exact (Backing.served_not_fails e hfails).elim
    · exact ⟨hact, hmoves.held⟩

lemma Recorded.call (h : Recorded V options c s now kept) (call : DirectoryCall)
    (hspace : (call.step ⟨c⟩ s).1 ≠ .error (.error (.outOfSpace c))) :
    Recorded V options c (call.step ⟨c⟩ s).2 (now.after call (call.step ⟨c⟩ s).1) kept := by
  obtain ⟨D, hheld, hfits, hact, hheld'⟩ := h.acts call
  refine h.within (step_within ⟨c⟩ call) ⟨_, hheld', ?_⟩
  rw [← hact] at hspace ⊢
  exact hfits.after hheld.tidy hheld.roomy call hspace

lemma Recorded.full (h : Recorded V options c s now kept) {call : DirectoryCall}
    {es : List Entry} (hes : ((⟨c⟩ : Directory).entries (call.step ⟨c⟩ s).2).1 = .ok es)
    {names : String → Option PageId} (hnames : Lists names es) :
    Recorded V options c (call.step ⟨c⟩ s).2 { now with names } kept := by
  obtain ⟨D, hheld, hfits, hact, hheld'⟩ := h.acts call
  obtain ⟨rfl, -⟩ := hheld'.entries_ends.ok (Prod.ext hes rfl)
  refine h.within (step_within ⟨c⟩ call) ⟨_, hheld', hnames, fun page hpage => ?_, fun n hn => ?_⟩
  · exact (hfits.returned page hpage).trans_le (DirectoryCall.next_le_act call)
  · exact (hfits.counts n hn).trans (DirectoryCall.next_le_act call)

/-- What is known is kept by the file after a flush. -/
lemma Recorded.flush (h : Recorded V options c s now kept) {n : ℕ}
    (hn : (Session.pageCount c s).1 = .ok n) {o : Schedule}
    (hflush : Session.flushIn o s = (.ok (), s')) :
    Recorded V options c s' (now.flushed n) (now.flushed n) := by
  have hbacked : ∀ c' ∈ ({c} : Set CacheId), s.Backed A c' := fun c' hc' =>
    Set.mem_singleton_iff.mp hc' ▸ h.solo.backed
  have halone : ∀ c', c' ∈ s.store.caches → c' ∈ ({c} : Set CacheId) := fun c' hc' => h.solo.alone c' hc'
  obtain ⟨hsaves, hclean⟩ := (Session.flushIn_saves hbacked halone h.solo.backed.honest o).ok hflush
  have hready := (Session.flushIn_served hbacked halone h.solo.backed.honest h.ready o).ok hflush
  obtain ⟨D, hheld, hfits⟩ := h.held
  have hopen : c ∈ s'.store.caches := (hsaves.opened c).mpr hheld.mem_caches
  obtain ⟨k, hk⟩ := Option.isSome_iff_exists.mp (Std.TreeMap.mem_iff_isSome_getElem?.mp hheld.mem_caches)
  obtain ⟨k', hk'⟩ := Option.isSome_iff_exists.mp (Std.TreeMap.mem_iff_isSome_getElem?.mp hopen)
  have hbacked := hsaves.backed c rfl
  have harray := hsaves.array c rfl
  -- The directory shows the same pages, now from the files as well.
  have hheld' : (⟨c⟩ : Directory).Held (.served V) s' D := by
    refine hheld.transport hsaves.size ?_ fun i p hp => ?_
    · rw [← hheld.next, Session.next?_array hk', harray, Session.next?_array hk]
    · obtain ⟨hhas, rfl⟩ := hp.has h.solo.backed
      rw [← harray] at hhas ⊢
      exact Session.shows_of_has hbacked hready hk' hhas
  obtain rfl : D.next = n := by
    rw [Session.pageCount_run hheld.next] at hn
    exact Except.ok.inj hn
  have hgrows := hsaves.grows c rfl
  have hfew : (s'.file A c).length < 0x100000000 * s'.size := by
    have hfew := h.few
    rw [hsaves.size]
    unfold Grows at hgrows
    omega
  refine ⟨⟨hbacked, fun i => ?_, fun c' hc' => h.solo.alone c' ((hsaves.opened c').mp hc')⟩, hready,
    hsaves.folder.trans h.folder_eq, hsaves.options.trans h.options_eq, hfew, ⟨D, hheld', hfits.flushed⟩,
    .saved hbacked (hclean c) hopen ?_ rfl hheld' hfits.flushed⟩
  · rw [harray, hsaves.size]
    exact h.solo.spent i
  · rw [Session.size, hsaves.options, h.options_eq]

/-! #### All sessions -/

section Sessions

variable (hcheck : options.check = .ok ()) (hcreate : options.createIfMissing = true)
  (hown : PageStore.pathOf { folder, options } c ∈ own)
  (hapart : ∀ c', c' ≠ c → A.Apart (PageStore.pathOf { folder, options } c')
    (PageStore.pathOf { folder, options } c))
include hcheck hcreate hown hapart

/-- All moments of a session. -/
lemma Rests.visit (hrests : Rests V options c d R)
    (h : Visit folder options c d R s now kept) : Recorded V options c s now kept := by
  induction h with
  | opened hstore hstart =>
      obtain ⟨store, d', s, hstore', hstart', hrecorded⟩ := hrests.opens hcheck hcreate hown hapart
      cases hstore.symm.trans hstore'
      cases hstart.symm.trans hstart'
      exact hrecorded
  | call _ call hspace ih => exact ih.call call hspace
  | full _ call _ hes hnames ih => exact ih.full hes hnames
  | flush _ hn o hflush ih => exact ih.flush hn hflush

omit hcheck hcreate hown hapart in
/-- What is left when a session ends. -/
lemma Recorded.rests (h : Recorded V options c s now kept) :
    Rests V options c s.device kept := by
  have hpath : A.bytes s.device (PageStore.pathOf { folder, options } c) = s.file A c := by
    rw [Session.file, PageStore.pathOf, PageStore.pathOf, h.folder_eq]
  refine ⟨h.solo.backed.honest, V.makeDirs_serves _ h.ready, ?_, hpath.symm ▸ h.file⟩
  have hfew := h.few
  rwa [hpath, ← h.options_eq]

/-- All sessions. -/
theorem chronicle_rests (h : Chronicle V options c d R) : Rests V options c d R := by
  induction h with
  | new hhonest hmade hempty =>
      refine ⟨hhonest, hmade, ?_, .blank hempty⟩
      have husual := (Options.size_of_check hcheck).1
      rw [hempty, List.length_nil]
      omega
  | session _ hvisit ih => exact (ih.visit hcheck hcreate hown hapart hvisit).rests

end Sessions

end Directory

/-! ### Answers -/

/-- How a call is answered when something is known of a directory. -/
structure DirectoryRecord.Answers {δ : Type} [Device δ] (R : DirectoryRecord) (c : CacheId)
    (s : Session δ) (call : DirectoryCall) : Prop where
  agrees : (call.step ⟨c⟩ s).1 ≠ .error (.error (.outOfSpace c)) →
    call.Agrees c R.names R.returned s (call.step ⟨c⟩ s).1 (call.step ⟨c⟩ s).2
  /-- The pages that a call takes, for nodes or for an index, are those from `n` up to `n'`, and
  the cache had none of them when it was flushed. -/
  grows : ∃ n n', (Session.pageCount c s).1 = .ok n ∧
    (Session.pageCount c (call.step ⟨c⟩ s).2).1 = .ok n' ∧ n ≤ n' ∧ ∀ m ∈ R.counts, m ≤ n
  /-- A page that is new has an index that the cache did not have when it was flushed. -/
  new : ∀ root, (call.step ⟨c⟩ s).1 = .ok (.root (some root)) → root.allocated = true →
    ∀ n ∈ R.counts, n ≤ root.address.page.index
  /-- A page is missing only for a new name, and when the last index is taken. The names that are
  still listed have the pages that they had. -/
  full : (call.step ⟨c⟩ s).1 = .error (.error (.outOfSpace c)) →
    (∃ name, call = .obtain name ∧ R.names name = none) ∧
      (Session.pageCount c (call.step ⟨c⟩ s).2).1 = .ok CacheFile.indexLimit ∧
      ∃ es names, ((⟨c⟩ : Directory).entries (call.step ⟨c⟩ s).2).1 = .ok es ∧
        Directory.Lists names es ∧
        ∀ name, call ≠ .obtain name → names name = none ∨ names name = R.names name

namespace Directory

variable {δ : Type} [Device δ] {A : Device.Account δ} {folder : String} {own : Set String}
  {V : A.Service folder own} {options : Options} {c : CacheId} {s s' : Session δ} {now kept R : DirectoryRecord} {d : δ}

/-- In all moments of a session calls are answered as they should be. -/
lemma Recorded.answers (h : Recorded V options c s now kept) (call : DirectoryCall) :
    now.Answers c s call := by
  obtain ⟨D, hheld, hfits, hact, hheld'⟩ := h.acts call
  constructor
  case agrees =>
    intro hspace
    obtain htrouble | ⟨hagrees, -⟩ :=
      DirectoryCall.step_agrees ⟨D, hheld, hfits.lists, hfits.returned⟩ call
    · rcases hr : (call.step ⟨c⟩ s).1 with e | a
      · rw [hr] at hact hspace htrouble
        obtain ⟨_, _, _, rfl⟩ | rfl := DirectoryCall.act_refused hact
        · obtain ⟨_, hio⟩ | ⟨_, hfull⟩ := htrouble
          · cases hio
          · cases hfull
        · exact absurd rfl hspace
      · rw [hr] at htrouble
        exact htrouble.elim
    · exact hagrees
  case grows =>
    exact ⟨_, _, by rw [Session.pageCount_run hheld.next], by rw [Session.pageCount_run hheld'.next],
      DirectoryCall.next_le_act call, hfits.counts⟩
  case new =>
    intro root hroot hallocated n hn
    rw [hroot] at hact
    exact (hfits.counts n hn).trans (DirectoryCall.next_le_allocated hact hallocated)
  case full =>
    intro hfull
    rw [hfull] at hact
    obtain ⟨hname, hlimit, names, hnames, hold⟩ :=
      DirectoryCall.act_full hheld.tidy hheld.roomy hfits.lists hact
    refine ⟨hname, ?_, _, names, ?_, hnames, hold⟩
    · obtain ⟨k, hk, hnext⟩ := Option.map_eq_some_iff.mp hheld'.next
      have hle := ((h.solo.within (step_within ⟨c⟩ call)).backed.opened hk).next_le
      rw [Session.pageCount_run hheld'.next]
      exact congrArg Except.ok (le_antisymm (hnext ▸ hle) hlimit)
    · rcases hrun : (⟨c⟩ : Directory).entries (call.step ⟨c⟩ s).2 with ⟨e | es, s''⟩
      · exact (Backing.served_not_fails e (hheld'.entries_ends.error hrun)).elim
      · rw [(hheld'.entries_ends.ok hrun).1]

end Directory

end PageCatalog
