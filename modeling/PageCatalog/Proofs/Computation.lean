import Mathlib.Tactic
import PageCatalog.Store.Basic

/-!
Running computations step by step.

Computations on a page, on a session and on a walk all fail with a reason and keep
what they changed before they failed. One step of such a computation gives either a
value, and the rest goes on from the state it leaves, or a failure, which is the end.

* `run_bind_ok`, `run_bind_error`: the two ways on from a step.
* `run_map_ok`, `run_map_error`: the same for a step whose value is only reshaped.
* `run_bind_of_eq`, `run_bind_congr`: what may be exchanged for what.
* `Ends`: what holds where a computation ends, with a value or with a reason;
  `Ends.bind` goes on from there.
* `Device.persist_interrupted`, `persist_refused`, `persist_answered`: a repeated call.
-/

namespace PageCatalog

section Run

variable {σ ε α β : Type}

@[simp] lemma run_pure (a : α) (s : σ) : (pure a : ExceptT ε (StateM σ) α) s = (.ok a, s) := rfl

@[simp] lemma run_get (s : σ) : (get : ExceptT ε (StateM σ) σ) s = (.ok s, s) := rfl

variable {m : ExceptT ε (StateM σ) α} {s s' : σ} {a : α} {e : ε}

/-- A step that gives a value goes on with it from the state that it left. -/
lemma run_bind_ok (h : m s = (.ok a, s')) (f : α → ExceptT ε (StateM σ) β) :
    (m >>= f) s = f a s' := by
  simp [bind, ExceptT.bind, ExceptT.mk, StateT.bind, ExceptT.bindCont, h]

/-- A step that fails is the end, in the state that it left. -/
lemma run_bind_error (h : m s = (.error e, s')) (f : α → ExceptT ε (StateM σ) β) :
    (m >>= f) s = (.error e, s') := by
  simp only [bind, ExceptT.bind, ExceptT.mk, StateT.bind, ExceptT.bindCont, h]
  rfl

/-- A value is reshaped. -/
lemma run_map_ok (h : m s = (.ok a, s')) (f : α → β) : (f <$> m) s = (.ok (f a), s') := by
  rw [← bind_pure_comp, run_bind_ok h]
  rfl

/-- A failure is not reshaped. -/
lemma run_map_error (h : m s = (.error e, s')) (f : α → β) : (f <$> m) s = (.error e, s') := by
  rw [← bind_pure_comp, run_bind_error h]

/-- Where nothing fails, nothing is caught. -/
lemma run_tryCatch_ok (h : m s = (.ok a, s')) (f : ε → ExceptT ε (StateM σ) α) :
    (tryCatch m f) s = (.ok a, s') := by
  simp only [tryCatch, tryCatchThe, MonadExceptOf.tryCatch, ExceptT.tryCatch, ExceptT.mk, bind,
    StateT.bind, h]
  rfl

/-- What fails goes on with what is caught. -/
lemma run_tryCatch_error (h : m s = (.error e, s')) (f : ε → ExceptT ε (StateM σ) α) :
    (tryCatch m f) s = f e s' := by
  simp only [tryCatch, tryCatchThe, MonadExceptOf.tryCatch, ExceptT.tryCatch, ExceptT.mk, bind,
    StateT.bind, h]

/-- What goes on from a step goes on from one that does the same elsewhere. -/
lemma run_bind_of_eq {t : σ} (h : m s = m t) (f : α → ExceptT ε (StateM σ) β) :
    (m >>= f) s = (m >>= f) t := by
  rcases hrun : m t with ⟨e | a, s'⟩
  · rw [run_bind_error hrun, run_bind_error (h.trans hrun)]
  · rw [run_bind_ok hrun, run_bind_ok (h.trans hrun)]

/-- A step that a computation comes to may be exchanged for one that does the same there. -/
lemma run_bind_congr {f g : α → ExceptT ε (StateM σ) β} (h : ∀ a s', m s = (.ok a, s') → f a s' = g a s') :
    (m >>= f) s = (m >>= g) s := by
  rcases hrun : m s with ⟨e | a, s'⟩
  · rw [run_bind_error hrun, run_bind_error hrun]
  · rw [run_bind_ok hrun, run_bind_ok hrun, h a s' hrun]

/-- A result that is a value comes with its state. -/
lemma run_of_isOk (h : (m s).1.isOk = true) : ∃ a, m s = (.ok a, (m s).2) := by
  rcases hm : m s with ⟨_ | a, s'⟩
  · rw [hm] at h
    cases h
  · exact ⟨a, rfl⟩

/-! ### Where a computation ends -/

/-- Begun in `s`, the computation ends with a value and a state as in `Q`, or with a reason
and a state as in `F`. -/
def Ends (m : ExceptT ε (StateM σ) α) (s : σ) (Q : α → σ → Prop) (F : ε → σ → Prop) : Prop :=
  match m s with
  | (.ok a, s') => Q a s'
  | (.error e, s') => F e s'

variable {Q Q' : α → σ → Prop} {F F' : ε → σ → Prop}

/-- A computation that is known to end with a value. -/
lemma Ends.of_ok {t : σ} (h : m s = (.ok a, t)) (hQ : Q a t) : Ends m s Q F := by
  rwa [Ends, h]

/-- A computation that is known to end with a reason. -/
lemma Ends.of_error {t : σ} (h : m s = (.error e, t)) (hF : F e t) : Ends m s Q F := by
  rwa [Ends, h]

/-- What is known of the value that was given. -/
lemma Ends.ok (h : Ends m s Q F) (hrun : m s = (.ok a, s')) : Q a s' := by
  rwa [Ends, hrun] at h

/-- What is known of the reason that was given. -/
lemma Ends.error (h : Ends m s Q F) (hrun : m s = (.error e, s')) : F e s' := by
  rwa [Ends, hrun] at h

/-- The result and the state at the end, whichever way a computation ends. -/
lemma Ends.result {P : Except ε α → σ → Prop}
    (h : Ends m s (fun a s' => P (.ok a) s') (fun e s' => P (.error e) s')) :
    P (m s).1 (m s).2 := by
  rw [Ends] at h
  rcases hm : m s with ⟨_ | _, s'⟩ <;> rw [hm] at h <;> exact h

/-- What is known of result and state, said for each way of ending. -/
lemma Ends.of_result {P : Except ε α → σ → Prop} (h : P (m s).1 (m s).2) :
    Ends m s (fun a s' => P (.ok a) s') (fun e s' => P (.error e) s') := by
  rw [Ends]
  rcases hm : m s with ⟨_ | _, s'⟩ <;> rw [hm] at h <;> exact h

/-- Less may be said of an end than is known. -/
lemma Ends.mono (h : Ends m s Q F) (hQ : ∀ a s', Q a s' → Q' a s') (hF : ∀ e s', F e s' → F' e s') :
    Ends m s Q' F' := by
  rw [Ends] at h ⊢
  rcases hm : m s with ⟨_ | _, s'⟩ <;> rw [hm] at h
  · exact hF _ _ h
  · exact hQ _ _ h

lemma Ends.mono_ok (h : Ends m s Q F) (hQ : ∀ a s', Q a s' → Q' a s') : Ends m s Q' F :=
  h.mono hQ fun _ _ hF => hF

lemma Ends.mono_error (h : Ends m s Q F) (hF : ∀ e s', F e s' → F' e s') : Ends m s Q F' :=
  h.mono (fun _ _ hQ => hQ) hF

lemma Ends.or_inl (h : Ends m s Q F) : Ends m s Q fun e s' => F e s' ∨ F' e s' :=
  h.mono_error fun _ _ => .inl

/-- What is known of an end in two ways. -/
lemma Ends.and (h : Ends m s Q F) (h' : Ends m s Q' F') :
    Ends m s (fun a s' => Q a s' ∧ Q' a s') (fun e s' => F e s' ∧ F' e s') := by
  rw [Ends] at h h' ⊢
  rcases hm : m s with ⟨_ | _, s'⟩ <;> rw [hm] at h h' <;> exact ⟨h, h'⟩

/-- The rest goes on from whatever is known of the first step's end. -/
lemma Ends.bind {f : α → ExceptT ε (StateM σ) β} {Q' : β → σ → Prop} (h : Ends m s Q F)
    (hf : ∀ a s', Q a s' → Ends (f a) s' Q' F) : Ends (m >>= f) s Q' F := by
  rw [Ends] at h
  rcases hm : m s with ⟨_ | a, s'⟩ <;> rw [hm] at h
  · exact Ends.of_error (run_bind_error hm f) h
  · have := hf a s' h
    rwa [Ends, run_bind_ok hm]

/-- A step whose end is known, and the rest from there. -/
lemma Ends.bind_ok {f : α → ExceptT ε (StateM σ) β} {Q' : β → σ → Prop} (h : m s = (.ok a, s'))
    (hf : Ends (f a) s' Q' F) : Ends (m >>= f) s Q' F := by
  rwa [Ends, run_bind_ok h]

lemma Ends.map {f : α → β} {Q' : β → σ → Prop} (h : Ends m s (fun a => Q' (f a)) F) :
    Ends (f <$> m) s Q' F := by
  rw [← bind_pure_comp]
  exact h.bind fun a s' hQ => hQ

/-- A step for each element keeps what each of them keeps. -/
lemma ends_forM {I : σ → Prop} {f : α → ExceptT ε (StateM σ) PUnit}
    (as : List α) (hf : ∀ a ∈ as, ∀ s, I s → Ends (f a) s (fun _ s' => I s') F) (hI : I s) :
    Ends (as.forM f) s (fun _ s' => I s') F := by
  induction as generalizing s with
  | nil => exact hI
  | cons a as ih =>
      exact (hf a List.mem_cons_self s hI).bind fun _ s' hI' =>
        ih (fun a ha => hf a (List.mem_cons_of_mem _ ha)) hI'

end Run

/-! ### Repeated calls -/

namespace Device

variable {δ α : Type} {call : DeviceM δ α} {d d' : δ} {e : IoError} {a : α}

/-- An interrupted call is made again. -/
lemma persist_interrupted (h : call d = (.error e, d')) (he : e.kind = .interrupted) (n : ℕ) :
    persist call (n + 1) d = persist call n d' := by
  simp only [persist, h, if_pos he]

/-- A call that is refused for good is not made again. -/
lemma persist_refused (h : call d = (.error e, d')) (he : e.kind ≠ .interrupted) (n : ℕ) :
    persist call n d = (.error e, d') := by
  cases n with
  | zero => exact h
  | succ n => simp only [persist, h, if_neg he]

/-- A call that is answered is not made again. -/
lemma persist_answered (h : call d = (.ok a, d')) (n : ℕ) : persist call n d = (.ok a, d') := by
  cases n with
  | zero => exact h
  | succ n => simp only [persist, h]

/-- A repeated call ends as the call does in the states that a refusal does not leave. -/
lemma persist_ends {I : δ → Prop} {Q : α → δ → Prop} {R : IoError → δ → Prop}
    (hcall : ∀ d, I d → Ends call d Q R) (hkeeps : ∀ e d', R e d' → I d') (n : ℕ) (hd : I d) :
    Ends (persist call n) d Q R := by
  -- An interrupted call leaves a state in which it may be made again, with one repetition less;
  -- otherwise the last call ends it.
  induction n generalizing d with
  | zero => exact hcall d hd
  | succ n ih =>
      have hend := hcall d hd
      rcases hrun : call d with ⟨e | a, d'⟩
      · by_cases hkind : e.kind = .interrupted
        · rw [Ends, persist_interrupted hrun hkind]
          exact ih (hkeeps e d' (hend.error hrun))
        · exact Ends.of_error (persist_refused hrun hkind _) (hend.error hrun)
      · exact Ends.of_ok (persist_answered hrun _) (hend.ok hrun)

end Device

/-- Where all is written, a transfer is at its end. -/
lemma Transfer.writeRounds_done {δ : Type} {writeAt : ℕ → ByteArray → DeviceM δ ℕ} {stalls : δ → ℕ}
    {bytes : ByteArray} {n : ℕ} (h : bytes.size ≤ n) (rounds pos : ℕ) (d : δ) :
    writeRounds writeAt stalls bytes rounds pos n d = ((.ok (), n), d) := by
  cases rounds <;> rw [writeRounds, if_neg (Nat.not_lt.mpr h)]

/-! ### Steps on a page -/

namespace PageM

variable {α : Type}

/-- A look that is answered leaves the page as it is. -/
lemma look_ok {f : Page → Except Failure α} {a : α} {p : Page} (h : f p = .ok a) :
    look f p = (.ok a, p) := by
  rw [look, h]

/-- A change that is made. -/
lemma change_ok {f : Page → Except Failure Page} {p q : Page} (h : f p = .ok q) :
    change f p = (.ok (), q) := by
  rw [change, h]

end PageM

end PageCatalog
