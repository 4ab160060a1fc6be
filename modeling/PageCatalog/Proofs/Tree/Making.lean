import Mathlib.Tactic
import PageCatalog.Proofs.Store.Opening
import PageCatalog.Proofs.Tree.Growth
import PageCatalog.Proofs.Tree.Stored

/-!
Making a tree and taking one over.

A tree that was made is a single empty leaf, whatever device is under the session, and
the pages of its nodes are in memory from then on. Taking over a held tree finds it in
order.

* `Tree.start_new`, `Tree.start_fresh`: a tree that was made.
* `Tree.Holds.recover_ends`: a tree that is taken over.
* `RowFormat.Supported`: the rows that trees are made of; `Supported.lawful`,
  `Supported.roomy`.
* `Tree.numbers`: a small tree, for tests.
-/

namespace PageCatalog

/-! ### Rows -/

/-- The rows that trees are made of, with what orders them: entries of the directory, and
numbers in slots of four widths. -/
inductive RowFormat.Supported : {ρ κ : Type} → [LinearOrder κ] → RowFormat ρ → (ρ → κ) → Prop
  | entries : Supported RowFormat.entries Entry.key
  | keys (width : ℕ) (hwidth : width ∈ [8, 60, 120, 240]) :
      Supported (RowFormat.keys width) RowFormat.keyOrder

namespace RowFormat.Supported

variable {ρ κ : Type} [LinearOrder κ] {R : RowFormat ρ} {key : ρ → κ}

lemma lawful (h : R.Supported key) : R.Lawful key := by
  cases h with
  | entries => exact entries_lawful
  | keys width hwidth =>
      refine keys_lawful ?_
      fin_cases hwidth <;> decide

/-- Pages of every size that a store can have hold two rows in a leaf, and a separator in
an inner node. -/
lemma roomy (h : R.Supported key) {size : ℕ} (hsize : 512 ≤ size) : R.Roomy size := by
  have hwidth : ∀ width ∈ [8, 60, 73, 120, 240], 2 ≤ (size - 16) / width ∧
      1 ≤ (size - 16 - 8) / (width + 8) := by
    intro width hwidth
    have hpos : 0 < width ∧ width ≤ 240 := by fin_cases hwidth <;> decide
    exact ⟨(Nat.le_div_iff_mul_le hpos.1).mpr (by omega),
      (Nat.le_div_iff_mul_le (by omega)).mpr (by omega)⟩
  cases h with
  | entries => exact ⟨(hwidth 73 (by simp)).1, (hwidth 73 (by simp)).2⟩
  | keys width hin =>
      have hin' : width ∈ [8, 60, 73, 120, 240] := by
        simp only [List.mem_cons] at hin ⊢
        tauto
      exact ⟨(hwidth width hin').1, (hwidth width hin').2⟩

/-- A row is not refused for want of pages. -/
lemma fits_ne (h : R.Supported key) {row : ρ} {error : Error} (hfits : R.fits row = .error error)
    (c : CacheId) : error ≠ .outOfSpace c := by
  rintro rfl
  cases h with
  | entries =>
      change Entry.checkName row.name = _ at hfits
      rw [Entry.checkName] at hfits
      split at hfits <;> cases hfits
  | keys width _ => cases hfits

end RowFormat.Supported

/-! ### Making a tree -/

namespace Tree

variable {ρ κ δ : Type} [LinearOrder κ] [Device δ] {t : Tree ρ} {key : ρ → κ} {s s' : Session δ}

/-- A page into which a root and a level were written has room for them. -/
lemma size_of_enter {id : PageId} {n : ℕ} {p q : Page}
    (h : (do MetaPage.setRoot id; MetaPage.setLevel n : PageM Unit) p = (.ok (), q)) :
    12 ≤ p.size := by
  rcases hroot : MetaPage.setRoot id p with ⟨_ | ⟨⟩, u⟩
  · rw [run_bind_error hroot] at h
    cases h
  · rw [run_bind_ok hroot] at h
    have hu : u.size = p.size := by
      rw [MetaPage.setRoot, PageM.change] at hroot
      split at hroot
      · rename_i v hv
        cases hroot
        exact Page.size_of_splice hv
      · cases hroot
    rw [MetaPage.setLevel, PageM.change] at h
    split at h
    · rename_i v hv
      have hle := (Page.bytes_of_splice hv).1
      rw [Bytes.length_ofNat] at hle
      omega
    · cases h

/-- A tree that was made in an open cache is a single empty leaf. It cannot be made only where
the last index is taken, or the meta page has no room for a root and a level. -/
lemma create_ends (hR : t.rows.Lawful key) (husual : 512 ≤ s.size ∧ s.size ≤ 65536) {m : Page}
    (hm : s.InMemory t.cache 0 m) :
    Ends t.create s
      (fun _ s' => ∃ n, s.next? t.cache = some n ∧ s'.next? t.cache = some (n + 1) ∧
        t.Holds (.none δ) s' ⟨0, .leaf (t.rows.nodeId n) []⟩ ∧ s.Keeps (.none δ) t.cache [0] s')
      (fun _ _ => (∀ n, s.next? t.cache = some n → CacheFile.indexLimit ≤ n) ∨ m.size < 12) := by
  obtain ⟨n, hn⟩ : ∃ n, s.next? t.cache = some n := by
    obtain ⟨k, f, hk, -⟩ := hm
    exact ⟨k.next, by rw [Session.next?, hk]; rfl⟩
  have hpos := hm.lt hn
  -- A page is allocated, made an empty leaf, and entered in the meta page as the root. The first
  -- and the last of these can fail.
  by_cases hlimit : CacheFile.indexLimit ≤ n
  · refine Ends.of_error (run_bind_error (Session.allocate_full hn hlimit _ _) _) (.inl fun n' hn' => ?_)
    rwa [← Option.some.inj (hn.symm.trans hn')]
  · have hindex : (t.rows.nodeId n).index = n := Shape.index_nodeId t.rows hlimit
    obtain ⟨s₁, hallocate, hnew, hkeeps₁, hnext₁⟩ := Session.allocate_ok (B := .none δ) hn
      (Nat.not_le.mp hlimit) t.rows.partition t.rows.space
    have hm₁ := hkeeps₁.memory List.not_mem_nil hm
    rw [← hindex] at hnew
    have hzeros : (Page.zeros s.size).size = s.size := Page.size_zeros _
    obtain ⟨q, hinit, hqsize, hq⟩ := t.exists_initLeaf hR (p := Page.zeros s.size)
      (by rwa [Page.Usual, hzeros]) (t.rows.nodeId n)
    obtain ⟨s₂, hedit₂, hq₂, hkeeps₂, hnext₂⟩ := Session.edit_memory (B := .none δ) hnew hinit
    have hm₂ : s₂.InMemory t.cache 0 m := by
      refine hkeeps₂.memory ?_ hm₁
      rw [hindex, List.mem_singleton]
      omega
    refine Ends.bind_ok hallocate (Ends.bind_ok hedit₂ ?_)
    -- The meta page may be too short for both entries.
    rcases henter : (do MetaPage.setRoot (t.rows.nodeId n); MetaPage.setLevel 0 : PageM Unit) m
      with ⟨e | ⟨⟩, m'⟩
    · obtain ⟨s₃, hedit₃, -⟩ := Session.edit_meta_memory (B := .none δ) hm₂ henter
      refine Ends.of_error hedit₃ (.inr (Nat.not_le.mp fun hle => ?_))
      obtain ⟨_, henter', -⟩ := MetaPage.exists_enter (n := 0) hle (t.rows.nodeId n) (by decide)
      cases henter.symm.trans henter'
    · obtain ⟨m'', henter', -, hleads⟩ :=
        MetaPage.exists_enter (n := 0) (size_of_enter henter) (t.rows.nodeId n) (by decide)
      obtain rfl : m' = m'' := congrArg Prod.snd (henter.symm.trans henter')
      obtain ⟨s₃, hedit₃, hm₃, hkeeps₃, hnext₃⟩ :=
        Session.edit_meta_memory (B := .none δ) hm₂ henter
      have hsize : s₃.size = s.size := by rw [hkeeps₃.size, hkeeps₂.size, hkeeps₁.size]
      have hq₃ : s₃.InMemory t.cache (t.rows.nodeId n).index q := by
        refine hkeeps₃.memory ?_ hq₂
        rw [hindex]
        rw [List.mem_singleton]
        omega
      have hkeeps : s.Keeps (.none δ) t.cache [0] s₃ := by
        have hkept : s.Keeps (.none δ) t.cache [0] s₁ := hkeeps₁.mono (by simp)
        exact (hkept.fresh hn hkeeps₂ (by simp [hindex])).trans hkeeps₃
      refine Ends.of_ok hedit₃ ⟨n, hn, by rw [hnext₃, hnext₂, hnext₁], ⟨by rwa [hsize],
        ⟨m', hm₃.shows, hleads⟩, ⟨q, hq₃.shows, by rw [hqsize, hzeros, hsize], hq⟩,
        List.nodup_singleton _, ?_⟩, hkeeps⟩
      change 0 ∉ [(t.rows.nodeId n).index]
      rw [hindex, List.mem_singleton]
      omega

/-- A tree that was made on demand is a single empty leaf in memory. -/
theorem start_new (hR : t.rows.Lawful key) (husual : 512 ≤ s.size ∧ s.size ≤ 65536)
    (h : t.start (some true) s = (.ok (), s')) :
    ∃ n, s'.next? t.cache = some (n + 1) ∧
      t.Holds (.none δ) s' ⟨0, .leaf (t.rows.nodeId n) []⟩ := by
  have hends : Ends (t.start (some true)) s
      (fun _ s' => ∃ n, s'.next? t.cache = some (n + 1) ∧
        t.Holds (.none δ) s' ⟨0, .leaf (t.rows.nodeId n) []⟩) (fun _ _ => True) := by
    refine ((Session.view_opens t.cache .metaPage MetaPage.root s).mono_error fun _ _ _ => trivial).bind ?_
    rintro root s₁ ⟨⟨m, hm, -⟩, honly⟩
    have hsize : s₁.size = s.size := congrArg Options.pageSize honly.options
    refine (create_ends hR (by rwa [hsize]) hm).mono ?_ fun _ _ _ => trivial
    rintro - s₂ ⟨n, -, hn, hholds, -⟩
    exact ⟨n, hn, hholds⟩
  exact hends.ok h

/-- A tree is made in a cache that has none. -/
theorem start_fresh (hR : t.rows.Lawful key) (husual : 512 ≤ s.size ∧ s.size ≤ 65536)
    {root : PageId} {s₁ : Session δ} (hroot : t.root s = (.ok root, s₁)) (hfresh : root.word = 0)
    (h : t.start none s = (.ok (), s')) :
    ∃ n, s₁.next? t.cache = some n ∧ s'.next? t.cache = some (n + 1) ∧
      t.Holds (.none δ) s' ⟨0, .leaf (t.rows.nodeId n) []⟩ ∧ s₁.Keeps (.none δ) t.cache [0] s' := by
  obtain ⟨⟨m, hm, -⟩, honly⟩ :=
    (Session.view_opens t.cache .metaPage MetaPage.root s).ok hroot
  have hsize : s₁.size = s.size := congrArg Options.pageSize honly.options
  rw [start, run_bind_ok hroot] at h
  simp only [Option.getD_none, hfresh, decide_true, if_true] at h
  exact (create_ends hR (by rwa [hsize]) hm).ok h

/-! ### Taking over a tree -/

/-- The topmost node of a stored shape is of a kind that its tree knows. -/
lemma exists_kind {B : Backing δ} {h : ℕ} (hR : t.rows.Lawful key) (S : Shape ρ h)
    (hS : S.Stored B t.rows t.cache s) :
    ∃ p kind, s.Shows B t.cache S.id.index p ∧ t.kind S.id p = .ok kind := by
  cases h with
  | zero =>
      obtain ⟨id, rows, rfl⟩ := S.exists_leaf
      obtain ⟨p, hp, -, hpage⟩ := hS
      exact ⟨p, .leaf, hp, t.kind_leaf hpage⟩
  | succ h =>
      obtain ⟨id, keys, children, rfl⟩ := S.exists_inner
      obtain ⟨⟨p, hp, -, hpage⟩, -⟩ := hS
      exact ⟨p, .inner, hp, t.kind_inner hR hpage⟩

/-- The root of a held tree is not the first page, so that its word is not zero. -/
lemma Holds.word_ne_zero {B : Backing δ} {T : TreeShape ρ} (hT : t.Holds B s T) : T.top.id.word ≠ 0 := by
  intro hzero
  refine hT.meta_notMem ?_
  have hindex : T.top.id.index = 0 := by
    rw [PageId.index, PageId.toNat, hzero]
    rfl
  exact hindex ▸ T.top.index_mem_indexes

/-- A held tree is found in order by whoever takes it over. -/
theorem Holds.recover_ends {B : Backing δ} {T : TreeShape ρ} (hR : t.rows.Lawful key)
    (hT : t.Holds B s T) :
    Ends (t.start (some false)) s (fun _ s' => s.Quiet B t.cache s')
      (fun e s' => B.Fails e ∧ s.Quiet B t.cache s') := by
  refine hT.root_ends.bind ?_
  rintro _ s₁ ⟨-, hquiet₁⟩
  simp only [Option.getD_some, Bool.false_eq_true, if_false]
  refine ((hT.quiet hquiet₁).root_ends.mono_error fun _ _ h => ⟨h.1, hquiet₁.trans h.2⟩).bind ?_
  rintro _ s₂ ⟨rfl, hquiet₂⟩
  have hquiet := hquiet₁.trans hquiet₂
  simp only [if_neg hT.word_ne_zero]
  obtain ⟨p, kind, hp, hkind⟩ := exists_kind hR T.top (hT.stored.quiet hquiet)
  refine Ends.map ((Session.view_ends hp hkind).mono ?_ ?_)
  · exact fun _ _ h => hquiet.trans h.2.1
  · exact fun _ _ h => ⟨h.1, hquiet.trans h.2⟩

/-- A held tree is taken over whether or not one is told that it is there. -/
lemma Holds.start_none {B : Backing δ} {T : TreeShape ρ} (hT : t.Holds B s T) :
    t.start none s = t.start (some false) s := by
  refine run_bind_congr fun root s₁ hroot => ?_
  obtain ⟨rfl, -⟩ := hT.root_ends.ok hroot
  simp only [Option.getD_none, Option.getD_some, hT.word_ne_zero, decide_false]

/-! ### A small tree -/

/-- A tree of numbers in slots so wide that a leaf of the smallest size holds two. -/
def numbers : Tree UInt64 := ⟨"numbers", 1, .keys 240⟩

lemma numbers_supported : numbers.rows.Supported RowFormat.keyOrder := .keys 240 (by simp)

end Tree

end PageCatalog
