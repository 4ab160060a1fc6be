import Mathlib.Tactic
import PageCatalog.CommandLine
import PageCatalog.Proofs.Device.FileTree
import PageCatalog.Proofs.Directory.Sessions

/-!
A directory that lasts.

In every session of a directory the calls are answered by what is known from the sessions
before it, as far as these were flushed. A run of the program is a session of one call, which
is flushed unless the run fails. Only a device that is full can keep an answered call from
being flushed, and then the run fails too.

* `CommandLine.called`, `CommandLine.printed`: a command as a call; `carryOut_called`.
* `CommandLine.Ran`, `CommandLine.Halted`: how a run ends; `CommandLine.Runs`: one run after the
  other.
* `Directory.Lasts`, `Directory.lasts_of_chronicle`: every session, and every run;
  `Directory.Lasts.ran`: runs on a device with room.
* `Directory.lasts_after_runs`: any number of runs over a tree of files.
-/

namespace PageCatalog

/-! ### Runs of the program -/

namespace CommandLine

/-- What a command asks of the directory. -/
def called : List String → Option DirectoryCall
  | ["alloc", name] => some (.obtain name)
  | ["drop", name] => some (.drop name)
  | ["list"] => some .entries
  | _ => none

/-- What is printed of the answer to a call. -/
def printed : DirectoryCall → DirectoryAnswer → String
  | .obtain name, .root (some root) =>
    let state := if root.allocated then "allocated" else "existing"
    s!"{name}\t{root.address.page.text}\t{state}\n"
  | .drop name, .root (some root) => s!"{name}\t{root.address.page.text}\tdropped\n"
  | .drop name, .root none => s!"{name}\tnot found\n"
  | .entries, .entries es => String.join <| es.map fun e => s!"{Text.decodeLossy e.name}\t{e.page.text}\n"
  | _, _ => ""

variable {δ : Type} [Device δ] (d : Directory) {command : List String} {call : DirectoryCall}

/-- A command is a call of the directory. -/
lemma carryOut_called (h : called command = some call) :
    (carryOut d command : SessionM δ (Option String)) = (fun a => some (printed call a)) <$> call.step d := by
  unfold called at h
  split at h
  · cases h
    simp only [carryOut, DirectoryCall.step, printed, map_eq_pure_bind, bind_assoc, pure_bind]
  · cases h
    simp only [carryOut, DirectoryCall.step, map_eq_pure_bind, bind_assoc, pure_bind]
    refine bind_congr fun r => ?_
    cases r <;> rfl
  · cases h
    simp only [carryOut, DirectoryCall.step, printed, map_eq_pure_bind, bind_assoc, pure_bind]
  · cases h

/-- Other commands are none. -/
lemma carryOut_uncalled (h : called command = none) :
    (carryOut d command : SessionM δ (Option String)) = pure none := by
  unfold called at h
  split at h
  · cases h
  · cases h
  · cases h
  · rename_i h₁ h₂ h₃
    unfold carryOut
    split
    · exact (h₁ _ rfl).elim
    · exact (h₂ _ rfl).elim
    · exact (h₃ rfl).elim
    · rfl

/-- How a run ends, from the session in which the directory is open: it was called wrongly, or
the call failed, or the call was answered and what is known was written to the file. -/
inductive Ran (c : CacheId) (s : Session δ) (kept : DirectoryRecord) (command : List String) :
    Outcome → DirectoryRecord → Prop
  | misused (h : called command = none) : Ran c s kept command misused kept
  | failed {call : DirectoryCall} (h : called command = some call) {e : Failure}
      (hfails : (call.step ⟨c⟩ s).1 = .error e) : Ran c s kept command (ofFailure e) kept
  | done {call : DirectoryCall} (h : called command = some call) {a : DirectoryAnswer}
      (hanswers : (call.step ⟨c⟩ s).1 = .ok a) {n : ℕ}
      (hn : (Session.pageCount c (call.step ⟨c⟩ s).2).1 = .ok n) :
      Ran c s kept command { code := 0, out := printed call a } ((kept.after call (.ok a)).flushed n)

/-- A failed run keeps what was known. -/
lemma Ran.kept_eq {c : CacheId} {s : Session δ} {kept kept' : DirectoryRecord} {outcome : Outcome}
    (h : Ran c s kept command outcome kept') (hcode : outcome.code ≠ 0) : kept' = kept := by
  cases h with
  | misused => rfl
  | failed => rfl
  | done => exact absurd rfl hcode

/-- How a run ends whose flush is refused: the answer to the call has been printed, and the run
fails all the same. -/
structure Halted (c : CacheId) (s : Session δ) (command : List String) (outcome : Outcome) : Prop where
  answered : ∃ call a, called command = some call ∧ (call.step ⟨c⟩ s).1 = .ok a ∧
    outcome.out = printed call a
  code : outcome.code ≠ 0

/-- Runs of the program with some commands, one after the other, on a device of which something is
known. What is known after a run is what its answer says. -/
inductive Runs (folder text : String) (c : CacheId) :
    List (List String) → δ → DirectoryRecord → δ → DirectoryRecord → Prop
  | none (d : δ) (kept : DirectoryRecord) : Runs folder text c [] d kept d kept
  | run {d d' last : δ} {store : PageStore} {s : Session δ} {kept kept' known : DirectoryRecord}
      {command : List String} {commands : List (List String)}
      (hstore : Session.start folder {} d = (.ok store, d'))
      (hstart : Directory.start c ⟨d', store⟩ = (.ok ⟨c⟩, s))
      (hran : Ran c s kept command (CommandLine.run (folder :: text :: command) d).1 kept')
      (rest : Runs folder text c commands (CommandLine.run (folder :: text :: command) d).2 kept' last known) :
      Runs folder text c (command :: commands) d kept last known

end CommandLine

namespace Directory

variable {δ : Type} [Device δ] {A : Device.Account δ} {folder : String} {own : Set String}
  {V : A.Service folder own} {options : Options} {c : CacheId} {d : δ} {kept : DirectoryRecord}

variable (V options c d kept) in
/-- The next session of a directory of which something is known. -/
structure Lasts : Prop where
  opens : ∃ store d' s, Session.start folder options d = (.ok store, d') ∧
    Directory.start c ⟨d', store⟩ = (.ok ⟨c⟩, s)
  answers : ∀ {s now kept'}, Visit folder options c d kept s now kept' →
    ∀ call, now.Answers c s call
  /-- A run of the program is such a session. It flushes unless it fails, and it fails if there is
  no room for some page. -/
  runs : options = {} → ∀ text command, CommandLine.cacheId text = .ok c → command ≠ [] →
    ∃ store d' s, Session.start folder options d = (.ok store, d') ∧
      Directory.start c ⟨d', store⟩ = (.ok ⟨c⟩, s) ∧
      ((∃ kept', CommandLine.Ran c s kept command (CommandLine.run (folder :: text :: command) d).1 kept' ∧
          Chronicle V options c (CommandLine.run (folder :: text :: command) d).2 kept' ∧
          ((CommandLine.run (folder :: text :: command) d).1.code ≠ 0 → kept' = kept)) ∨
        (CommandLine.Halted c s command (CommandLine.run (folder :: text :: command) d).1 ∧
          ∃ pos < CacheFile.indexLimit * options.pageSize, ¬ V.Room pos))

/-- Where a page of the cache has no room, it is one of those that there can be. -/
lemma Recorded.lacks_room {now : DirectoryRecord} {s : Session δ}
    (h : Recorded V options c s now kept) (hfull : s.Full V {c}) :
    ∃ pos < CacheFile.indexLimit * options.pageSize, ¬ V.Room pos := by
  obtain ⟨c', rfl, pos, hpos, hroom⟩ := hfull
  obtain ⟨D, hheld, -⟩ := h.held
  obtain ⟨k, hk, -⟩ := Option.map_eq_some_iff.mp hheld.next
  have hle := (h.solo.backed.opened hk).next_le
  rw [Session.array_open hk, Session.size, h.options_eq] at hpos
  exact ⟨pos, hpos.trans_le (Nat.mul_le_mul_right _ hle), hroom⟩

section Runs

variable {s : Session δ} {command : List String} (hrecorded : Recorded V options c s kept kept)
  (hchronicle : Chronicle V options c d kept)
  (hvisit : Visit folder options c d kept s kept kept)
include hrecorded hchronicle hvisit

/-- A call that fails. -/
lemma Recorded.chronicle_failed {call : DirectoryCall} {e : Failure} {s' : Session δ}
    (hrun : call.step ⟨c⟩ s = (.error e, s')) : Chronicle V options c s'.device kept := by
  by_cases hfull : (call.step ⟨c⟩ s).1 = .error (.error (.outOfSpace c))
  · obtain ⟨-, -, es, names, hes, hnames, -⟩ := (hrecorded.answers call).full hfull
    have hend := hchronicle.session (hvisit.full call hfull hes hnames)
    rwa [hrun] at hend
  · have hend := hchronicle.session (hvisit.call call hfull)
    rwa [hrun] at hend

/-- A call that is answered, and a flush behind it. -/
lemma Recorded.chronicle_done {call : DirectoryCall} {a : DirectoryAnswer} {s' : Session δ}
    (hrun : call.step ⟨c⟩ s = (.ok a, s')) :
    ∃ n, (Session.pageCount c s').1 = .ok n ∧
      Ends Session.flush s'
        (fun _ s'' => Chronicle V options c s''.device ((kept.after call (.ok a)).flushed n))
        (fun e _ => e.IsIo ∧ ∃ pos < CacheFile.indexLimit * options.pageSize, ¬ V.Room pos) := by
  have hspace : (call.step ⟨c⟩ s).1 ≠ .error (.error (.outOfSpace c)) := by
    rw [hrun]
    exact fun h => by cases h
  have hvisit' := hvisit.call call hspace
  have h' := hrecorded.call call hspace
  obtain ⟨-, n, -, hn, -, -⟩ := (hrecorded.answers call).grows
  rw [hrun] at hvisit' h' hn
  have hbacked : ∀ c' ∈ ({c} : Set CacheId), s'.Backed A c' := fun c' hc' =>
    Set.mem_singleton_iff.mp hc' ▸ h'.solo.backed
  have halone : ∀ c', c' ∈ s'.store.caches → c' ∈ ({c} : Set CacheId) := fun c' hc' => h'.solo.alone c' hc'
  have hserved := Session.flushIn_served hbacked halone h'.solo.backed.honest h'.ready .ascending
  have hsaved := Session.flushIn_saves hbacked halone h'.solo.backed.honest .ascending
  refine ⟨n, hn, ?_⟩
  rw [Session.flush_eq_flushIn]
  rcases hflush : Session.flushIn .ascending s' with ⟨e | ⟨⟩, s''⟩
  · exact Ends.of_error hflush ⟨(hsaved.error hflush).1, h'.lacks_room (hserved.error hflush).2⟩
  · exact Ends.of_ok hflush (hchronicle.session (hvisit'.flush hn .ascending hflush))

/-- A run of the program is a session. -/
lemma Recorded.run_chronicle {text : String} (hcache : CommandLine.cacheId text = .ok c)
    (hcommand : command ≠ []) {store : PageStore} {d' : δ}
    (hstore : Session.start folder {} d = (.ok store, d'))
    (hstart : Directory.start c ⟨d', store⟩ = (.ok ⟨c⟩, s)) :
    (∃ kept', CommandLine.Ran c s kept command (CommandLine.run (folder :: text :: command) d).1 kept' ∧
        Chronicle V options c (CommandLine.run (folder :: text :: command) d).2 kept') ∨
      (CommandLine.Halted c s command (CommandLine.run (folder :: text :: command) d).1 ∧
        ∃ pos < CacheFile.indexLimit * options.pageSize, ¬ V.Room pos) := by
  obtain ⟨first, rest, rfl⟩ := List.exists_cons_of_ne_nil hcommand
  have hok : ∀ {outcome s'}, CommandLine.inStore c (first :: rest) ⟨d', store⟩ = (.ok outcome, s') →
      CommandLine.run (folder :: text :: first :: rest) d = (outcome, s'.device) := fun hin => by
    simp only [CommandLine.run, hcache, hstore, hin]
  -- The words are a command or not; the command is refused or answered; and after an answer the
  -- flush comes to its end or not.
  cases hcalled : CommandLine.called (first :: rest) with
  | none =>
      have hcarry : CommandLine.carryOut ⟨c⟩ (first :: rest) s = (.ok none, s) := by
        rw [CommandLine.carryOut_uncalled _ hcalled]
        rfl
      have hin : CommandLine.inStore c (first :: rest) ⟨d', store⟩ = (.ok CommandLine.misused, s) :=
        (run_bind_ok hstart _).trans (run_bind_ok hcarry _)
      rw [hok hin]
      exact .inl ⟨kept, .misused hcalled, hchronicle.session hvisit⟩
  | some call =>
      have hcarry := CommandLine.carryOut_called (δ := δ) ⟨c⟩ hcalled
      rcases hcall : call.step ⟨c⟩ s with ⟨e | a, s'⟩
      · have hin : CommandLine.inStore c (first :: rest) ⟨d', store⟩ = (.error e, s') := by
          refine (run_bind_ok hstart _).trans (run_bind_error ?_ _)
          rw [hcarry, run_map_error hcall]
        have hrun : CommandLine.run (folder :: text :: first :: rest) d
            = (CommandLine.ofFailure e, s'.device) := by
          simp only [CommandLine.run, hcache, hstore, hin]
        rw [hrun]
        exact .inl ⟨kept, .failed hcalled (congrArg Prod.fst hcall),
          hrecorded.chronicle_failed hchronicle hvisit hcall⟩
      · obtain ⟨n, hn, hend⟩ := hrecorded.chronicle_done hchronicle hvisit hcall
        have hcarried : CommandLine.carryOut ⟨c⟩ (first :: rest) s
            = (.ok (some (CommandLine.printed call a)), s') := by rw [hcarry, run_map_ok hcall]
        rcases hflush : Session.flush s' with ⟨e | ⟨⟩, s''⟩
        · obtain ⟨⟨io, rfl⟩, hfull⟩ := hend.error hflush
          have hin : CommandLine.inStore c (first :: rest) ⟨d', store⟩
              = (.ok { CommandLine.ofFailure (.error (.io io)) with out := CommandLine.printed call a }, s'') :=
            (run_bind_ok hstart _).trans ((run_bind_ok hcarried _).trans
              (run_tryCatch_error (run_bind_error hflush _) _))
          rw [hok hin]
          exact .inr ⟨⟨⟨call, a, hcalled, congrArg Prod.fst hcall, rfl⟩, show (1 : UInt32) ≠ 0 by decide⟩, hfull⟩
        · have hin : CommandLine.inStore c (first :: rest) ⟨d', store⟩
              = (.ok { code := 0, out := CommandLine.printed call a }, s'') := by
            refine (run_bind_ok hstart _).trans ((run_bind_ok hcarried _).trans (run_tryCatch_ok ?_ _))
            rw [run_bind_ok hflush]
            rfl
          rw [hok hin]
          refine .inl ⟨_, .done hcalled (congrArg Prod.fst hcall) ?_, hend.ok hflush⟩
          rw [hcall]
          exact hn

end Runs

section Lasting

variable (hcheck : options.check = .ok ()) (hcreate : options.createIfMissing = true)
  (hown : PageStore.pathOf { folder, options } c ∈ own)
  (hapart : ∀ c', c' ≠ c → A.Apart (PageStore.pathOf { folder, options } c')
    (PageStore.pathOf { folder, options } c))
include hcheck hcreate hown hapart

/-- A directory that rests between two sessions lasts for the next one. -/
lemma Rests.lasts (hrests : Rests V options c d kept) (h : Chronicle V options c d kept) :
    Lasts V options c d kept := by
  obtain ⟨store, d', s, hstore, hstart, hrecorded⟩ := hrests.opens hcheck hcreate hown hapart
  refine ⟨⟨store, d', s, hstore, hstart⟩,
    fun hvisit call => (hrests.visit hcheck hcreate hown hapart hvisit).answers call, ?_⟩
  rintro rfl text command hcache hcommand
  have hend := hrecorded.run_chronicle h (.opened hstore hstart) hcache hcommand hstore hstart
  refine ⟨store, d', s, hstore, hstart, hend.imp_left ?_⟩
  rintro ⟨kept', hran, hchronicle⟩
  exact ⟨kept', hran, hchronicle, hran.kept_eq⟩

end Lasting

/-- Where there is room for every page, each run of the program comes to its end and is kept. -/
lemma Lasts.ran (h : Lasts V {} c d kept)
    (hroom : ∀ pos < CacheFile.indexLimit * ({} : Options).pageSize, V.Room pos)
    {text : String} {command : List String} (hcache : CommandLine.cacheId text = .ok c)
    (hcommand : command ≠ []) :
    ∃ store d' s kept', Session.start folder {} d = (.ok store, d') ∧
      Directory.start c ⟨d', store⟩ = (.ok ⟨c⟩, s) ∧
      CommandLine.Ran c s kept command (CommandLine.run (folder :: text :: command) d).1 kept' ∧
      Chronicle V {} c (CommandLine.run (folder :: text :: command) d).2 kept' := by
  obtain ⟨store, d', s, hstore, hstart, hend⟩ := h.runs rfl text command hcache hcommand
  obtain ⟨kept', hran, hchronicle, -⟩ := hend.resolve_right fun ⟨_, pos, hpos, hfull⟩ =>
    hfull (hroom pos hpos)
  exact ⟨store, d', s, kept', hstore, hstart, hran, hchronicle⟩

/-! ### Over a tree of files -/

/-- A directory begins where its folder can be made and its file opened, if there is nothing in
the file. -/
lemma chronicle_new {t made opened : FileTree} (ht : t.Regular)
    (hmade : Device.makeDirs folder t = (.ok (), made))
    (hopen : Device.attach (PageStore.pathOf { folder, options } c) made = (.ok (), opened))
    (hempty : FileTree.account.bytes t (PageStore.pathOf { folder, options } c) = []) :
    Chronicle (FileTree.service folder {PageStore.pathOf { folder, options } c}) options c t .blank :=
  .new ht (Ends.of_ok hmade (FileTree.ready_of_made ht hmade fun _ hpath =>
    ⟨opened, Set.mem_singleton_iff.mp hpath ▸ hopen⟩)) hempty

/-- What the tree owes to the program where it is run with a folder and a cache. -/
abbrev runService (folder : String) (c : CacheId) :
    FileTree.account.Service folder {PageStore.pathOf { folder, options := {} } c} :=
  FileTree.service folder _

/-- Over a tree the files of other caches are always apart, so nothing more is asked for. -/
lemma lasts_of_runService {t : FileTree} (h : Chronicle (runService folder c) {} c t kept) :
    Lasts (runService folder c) {} c t kept := by
  have hapart : ∀ c', c' ≠ c → FileTree.account.Apart (PageStore.pathOf { folder, options := {} } c')
      (PageStore.pathOf { folder, options := {} } c) := fun _ hc => FileTree.apart_pathOf _ hc
  exact (chronicle_rests rfl rfl (Set.mem_singleton _) hapart h).lasts rfl rfl (Set.mem_singleton _) hapart h

/-- After each run of the program the tree is one between two sessions again, with what is known
then. -/
lemma runs_of_chronicle {t : FileTree} {text : String} (hcache : CommandLine.cacheId text = .ok c)
    {commands : List (List String)} (hcommands : ∀ command ∈ commands, command ≠ [])
    (h : Chronicle (runService folder c) {} c t kept) :
    ∃ t' known, CommandLine.Runs folder text c commands t kept t' known ∧
      Chronicle (runService folder c) {} c t' known := by
  induction commands generalizing t kept with
  | nil => exact ⟨t, kept, .none t kept, h⟩
  | cons command rest ih =>
      obtain ⟨store, d', s, kept', hstore, hstart, hran, h'⟩ := (lasts_of_runService h).ran
        (fun _ hpos => FileTree.room_of_lt hpos) hcache (hcommands command List.mem_cons_self)
      obtain ⟨t', known, hruns, hlast⟩ :=
        ih (fun command hin => hcommands command (List.mem_cons_of_mem _ hin)) h'
      exact ⟨t', known, .run hstore hstart hran hruns, hlast⟩

/-- The program may be run over a tree as often as one likes, from an empty file on: every run comes
to its end, and the directory lasts with what the runs have said of it. -/
theorem lasts_after_runs {t made opened : FileTree} {text : String} (ht : t.Regular)
    (hmade : Device.makeDirs folder t = (.ok (), made))
    (hopen : Device.attach (PageStore.pathOf { folder, options := {} } c) made = (.ok (), opened))
    (hempty : FileTree.account.bytes t (PageStore.pathOf { folder, options := {} } c) = [])
    (hcache : CommandLine.cacheId text = .ok c) {commands : List (List String)}
    (hcommands : ∀ command ∈ commands, command ≠ []) :
    ∃ t' known, CommandLine.Runs folder text c commands t .blank t' known ∧
      Lasts (runService folder c) {} c t' known := by
  obtain ⟨t', known, hruns, h⟩ :=
    runs_of_chronicle hcache hcommands (chronicle_new ht hmade hopen hempty)
  exact ⟨t', known, hruns, lasts_of_runService h⟩

end Directory

end PageCatalog
