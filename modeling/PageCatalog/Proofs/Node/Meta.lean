import Mathlib.Tactic
import PageCatalog.Tree.Basic
import PageCatalog.Proofs.Computation
import PageCatalog.Proofs.Page.Region

/-!
The meta page of a cache.

The root and the level are two fields apart from each other, and each is read back as it
was set.

* `MetaPage.Leads`: the root and the level that a page gives.
* `MetaPage.exists_setRoot`, `MetaPage.exists_setLevel`, `MetaPage.exists_enter`.
-/

namespace PageCatalog

namespace MetaPage

/-- A page gives the root of a tree and its level. -/
structure Leads (id : PageId) (n : ℕ) (p : Page) : Prop where
  root : MetaPage.root p = .ok id
  level : MetaPage.level p = .ok n

variable {p : Page} {id : PageId} {n : ℕ}

/-- A page that gives a level has room for both fields. -/
lemma Leads.size_le (h : Leads id n p) : 12 ≤ p.size := by
  have hlevel := h.level
  rw [MetaPage.level, Page.number, Page.slice] at hlevel
  split at hlevel
  · assumption
  · cases hlevel

/-- A level that was read is below the limit. -/
lemma Leads.level_lt (h : Leads id n p) : n < levelLimit := by
  have hlevel := h.level
  have hsize := h.size_le
  rw [MetaPage.level, Page.number_region (by omega)] at hlevel
  cases hlevel
  have hlt := Bytes.toNat_lt (p.region 8 4)
  rwa [Page.length_region_of_le (by omega)] at hlt

lemma exists_setRoot (hsize : 12 ≤ p.size) (id : PageId) :
    ∃ q, setRoot id p = (.ok (), q) ∧ q.size = p.size ∧ MetaPage.root q = .ok id ∧
      MetaPage.level q = MetaPage.level p := by
  have hlen : (Bytes.ofNat 8 id.toNat).length = 8 := Bytes.length_ofNat _ _
  obtain ⟨q, hq⟩ := Page.exists_splice p 0 (Bytes.ofNat 8 id.toNat) (by omega)
  have hsame := Page.sameOutside_splice hq
  refine ⟨q, PageM.change_ok hq, hsame.size, Page.pageId_setPageId hq, ?_⟩
  exact hsame.number (.inr (by omega))

lemma exists_setLevel (hsize : 12 ≤ p.size) (hn : n < levelLimit) :
    ∃ q, setLevel n p = (.ok (), q) ∧ q.size = p.size ∧ MetaPage.root q = MetaPage.root p ∧
      MetaPage.level q = .ok n := by
  have hlen : (Bytes.ofNat 4 n).length = 4 := Bytes.length_ofNat _ _
  obtain ⟨q, hq⟩ := Page.exists_splice p 8 (Bytes.ofNat 4 n) (by omega)
  have hsame := Page.sameOutside_splice hq
  refine ⟨q, PageM.change_ok hq, hsame.size, hsame.pageId (.inl (by omega)), ?_⟩
  exact Page.number_setNumber hq hn

/-- A root and its level are entered. -/
lemma exists_enter (hsize : 12 ≤ p.size) (id : PageId) (hn : n < levelLimit) :
    ∃ q, (do setRoot id; setLevel n : PageM Unit) p = (.ok (), q) ∧ q.size = p.size ∧
      Leads id n q := by
  obtain ⟨u, hroot, hu, hid, -⟩ := exists_setRoot hsize id
  obtain ⟨q, hlevel, hq, hid', hn'⟩ := exists_setLevel (p := u) (by omega) hn
  refine ⟨q, by rw [run_bind_ok hroot, hlevel], by omega, hid'.trans hid, hn'⟩

end MetaPage

end PageCatalog
