import Mathlib.Tactic
import PageCatalog.Device.Path
import PageCatalog.Store.Basic
import Std.Data.String.ToNat

/-!
Paths of the files in one folder.

The last piece of a path is what follows its last slash, and no spelling of the folder
changes it. So files with different names in a folder have different paths, however the
folder is written; in particular, each cache has a file of its own.

* `Path.Plain`: a name that is one piece of a path.
* `Path.canonical_join_injective`: names in a folder.
* `PageStore.canonical_pathOf_injective`: the files of the caches.
-/

namespace PageCatalog

namespace Path

/-- A name that is one piece of a path. -/
structure Plain (name : String) : Prop where
  no_slash : '/' ∉ name.toList
  not_empty : name ≠ ""
  not_dot : name ≠ "."
  not_dots : name ≠ ".."

variable {folder name other : String}

/-! ### The last piece -/

/-- A text in front of the last segment: nothing, or something that ends with a slash. -/
def Leads (front : List Char) : Prop := front = [] ∨ ∃ rest, front = rest ++ ['/']

/-- What follows the last slash is found from the whole text. -/
lemma Leads.append_injective {front front' a b : List Char} (hfront : Leads front)
    (hfront' : Leads front') (ha : '/' ∉ a) (hb : '/' ∉ b) (h : front ++ a = front' ++ b) : a = b := by
  have hlast : ∀ {front a : List Char}, Leads front → '/' ∉ a →
      (front ++ a).reverse.takeWhile (· ≠ '/') = a.reverse := by
    intro front a hfront ha
    have hall : ∀ c ∈ a.reverse, decide (c ≠ '/') = true := fun c hc =>
      decide_eq_true fun hslash => ha (hslash ▸ List.mem_reverse.mp hc)
    rw [List.reverse_append, List.takeWhile_append_of_pos hall]
    obtain rfl | ⟨rest, rfl⟩ := hfront
    · simp
    · simp
  rw [← List.reverse_inj, ← hlast hfront ha, h, hlast hfront' hb]

/-- The path of a name inside a folder is the name behind a text that leads to it. -/
lemma exists_leads_join (folder name : String) :
    ∃ front, Leads front ∧ (join folder name).toList = front ++ name.toList := by
  rw [join]
  split
  · rename_i hfolder
    refine ⟨folder.toList, ?_, String.toList_append⟩
    obtain rfl | hslash := hfolder
    · exact .inl rfl
    · obtain ⟨rest, hrest⟩ := String.Slice.endsWith_string_iff.mp hslash
      exact .inr ⟨rest, by simpa using hrest.symm⟩
  · exact ⟨folder.toList ++ ['/'], .inr ⟨_, rfl⟩, by simp⟩

/-- The characters between the slashes. -/
def parts (text : List Char) : List (List Char) :=
  text.foldr (fun c texts => if c = '/' then [] :: texts else (c :: texts.headD []) :: texts.tail) [[]]

lemma segments_eq (path : String) : segments path = (parts path.toList).map .ofList := rfl

lemma parts_of_no_slash {text : List Char} (h : '/' ∉ text) : parts text = [text] := by
  induction text with
  | nil => rfl
  | cons c cs ih =>
      rw [List.mem_cons, not_or] at h
      rw [parts, List.foldr_cons, ← parts, ih h.2, if_neg (Ne.symm h.1)]
      rfl

lemma parts_leads {front text : List Char} (hfront : Leads front) (h : '/' ∉ text) :
    ∃ before, parts (front ++ text) = before ++ [text] := by
  obtain rfl | ⟨rest, rfl⟩ := hfront
  · exact ⟨[], parts_of_no_slash h⟩
  have hparts : ∃ before, before ≠ [] ∧ parts (rest ++ '/' :: text) = before ++ [text] := by
    induction rest with
    | nil =>
        refine ⟨[[]], by simp, ?_⟩
        rw [List.nil_append, parts, List.foldr_cons, ← parts, parts_of_no_slash h, if_pos rfl]
        rfl
    | cons c cs ih =>
        obtain ⟨before, hne, hbefore⟩ := ih
        obtain ⟨b, bs, rfl⟩ := List.exists_cons_of_ne_nil hne
        rw [List.cons_append, parts, List.foldr_cons, ← parts, hbefore]
        split
        · exact ⟨[] :: b :: bs, by simp, rfl⟩
        · exact ⟨(c :: b) :: bs, by simp, rfl⟩
  obtain ⟨before, -, hbefore⟩ := hparts
  exact ⟨before, by rw [List.append_assoc]; exact hbefore⟩

/-- The name is the last segment of its path. -/
lemma exists_segments_join (folder : String) (hname : Plain name) :
    ∃ before, segments (join folder name) = before ++ [name] := by
  obtain ⟨front, hfront, hjoin⟩ := exists_leads_join folder name
  obtain ⟨before, hbefore⟩ := parts_leads hfront hname.no_slash
  refine ⟨before.map .ofList, ?_⟩
  rw [segments_eq, hjoin, hbefore, List.map_append]
  simp

/-- The name is the last piece of its path. -/
lemma exists_pieces_join (folder : String) (hname : Plain name) :
    ∃ before, pieces (join folder name) = before ++ [name] := by
  obtain ⟨before, hsegments⟩ := exists_segments_join folder hname
  have hkept : ∀ ss : List String, (ss ++ [name]).filter (fun s => s ≠ "" ∧ s ≠ ".")
      = ss.filter (fun s => s ≠ "" ∧ s ≠ ".") ++ [name] := by
    intro ss
    rw [List.filter_append, List.filter_singleton]
    simp [hname.not_empty, hname.not_dot]
  rw [pieces, hsegments]
  split
  · -- the folder starts with a dot, which stays
    rename_i rest hdot
    cases before with
    | nil =>
        rw [List.nil_append] at hdot
        exact absurd (List.cons.inj hdot).1 hname.not_dot
    | cons s ss =>
        rw [List.cons_append] at hdot
        obtain ⟨-, rfl⟩ := List.cons.inj hdot
        exact ⟨"." :: _, by rw [hkept, List.cons_append]⟩
  · exact ⟨_, hkept _⟩

/-! ### Names in a folder -/

/-- Pieces that are put together again end with the last one. -/
lemma exists_leads_intercalate (before : List String) (name : String) :
    ∃ front, Leads front ∧ ("/".intercalate (before ++ [name])).toList = front ++ name.toList := by
  by_cases hnil : before = []
  · subst hnil
    exact ⟨[], .inl rfl, by rw [List.nil_append, String.intercalate_singleton, List.nil_append]⟩
  · rw [String.intercalate_append_of_ne_nil hnil (List.cons_ne_nil _ _), String.intercalate_singleton,
      String.toList_append, String.toList_append]
    exact ⟨_, .inr ⟨_, rfl⟩, rfl⟩

/-- The plain spelling of the path of a name is the name behind a text that leads to it. -/
lemma exists_leads_canonical (folder : String) (hname : Plain name) :
    ∃ front, Leads front ∧ (canonical (join folder name)).toList = front ++ name.toList := by
  obtain ⟨before, hbefore⟩ := exists_pieces_join folder hname
  obtain ⟨front, hfront, hend⟩ := exists_leads_intercalate before name
  rw [canonical, ofPieces, hbefore, String.toList_append, hend, ← List.append_assoc]
  refine ⟨_, ?_, rfl⟩
  obtain rfl | ⟨rest, rfl⟩ := hfront
  · split
    · exact .inr ⟨[], rfl⟩
    · exact .inl rfl
  · exact .inr ⟨_, (List.append_assoc ..).symm⟩

/-- Names in a folder have paths of their own. -/
lemma canonical_join_injective (hname : Plain name) (hother : Plain other)
    (h : canonical (join folder name) = canonical (join folder other)) : name = other := by
  obtain ⟨front, hfront, hpath⟩ := exists_leads_canonical folder hname
  obtain ⟨front', hfront', hpath'⟩ := exists_leads_canonical folder hother
  rw [h, hpath'] at hpath
  exact String.toList_inj.mp
    (hfront.append_injective hfront' hname.no_slash hother.no_slash hpath.symm)

end Path

/-! ### The files of the caches -/

namespace PageStore

/-- The name of the file of a cache, as one text. -/
lemma toList_name (c : CacheId) :
    s!"cache-{c}.pages".toList = "cache-".toList ++ (toString c).toList ++ ".pages".toList := by
  rw [show s!"cache-{c}.pages" = "cache-" ++ toString c ++ ".pages" from rfl, String.toList_append,
    String.toList_append]

lemma plain_name (c : CacheId) : Path.Plain s!"cache-{c}.pages" where
  no_slash := by
    have hdigits : '/' ∉ (toString c).toList := by
      rw [show toString c = c.toNat.repr from rfl, Nat.repr_eq_ofList_toDigits, String.toList_ofList]
      intro hslash
      have hdigit := Nat.isDigit_of_mem_toDigits (by decide) (by decide) hslash
      exact absurd hdigit (by decide)
    rw [toList_name, List.mem_append, List.mem_append, not_or, not_or]
    exact ⟨⟨by decide, hdigits⟩, by decide⟩
  not_empty h := by
    have hlist := toList_name c
    rw [h] at hlist
    simp at hlist
  not_dot h := by
    have hlist := toList_name c
    rw [h] at hlist
    simp at hlist
  not_dots h := by
    have hlist := toList_name c
    rw [h] at hlist
    simp at hlist

/-- Different caches have files with different names. -/
lemma name_injective {c b : CacheId} (hname : s!"cache-{c}.pages" = s!"cache-{b}.pages") : c = b := by
  have hdigits : toString c = toString b := by
    have hlist := congrArg String.toList hname
    rw [toList_name, toList_name, List.append_left_inj, List.append_right_inj] at hlist
    exact String.toList_inj.mp hlist
  exact UInt32.toNat_inj.mp (Nat.repr_injective hdigits)

/-- The files of different caches have different paths. -/
lemma canonical_pathOf_injective (store : PageStore) {c b : CacheId}
    (h : Path.canonical (store.pathOf c) = Path.canonical (store.pathOf b)) : c = b :=
  name_injective (Path.canonical_join_injective (plain_name c) (plain_name b) h)

end PageStore

end PageCatalog
