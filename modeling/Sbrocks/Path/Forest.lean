import Mathlib.Data.List.Nodup
import Mathlib.Tactic.Common

/-!
# Directory trees in depth-first order

A forest of entries, some of which contain a forest of their own.  The name of an
entry is the name of the directory that contains it, followed by a part without the
separator; the name of a directory ends in the separator.
-/

namespace Sbrocks.Path

universe u v

variable {α : Type u} {β : Type v}

/-- A separator that ends a part determines the part. -/
theorem part_unique {sep : β} {a b xs : List β} (aPart : sep ∉ a) (bPart : sep ∉ b)
    (first : a ++ [sep] <+: xs) (second : b ++ [sep] <+: xs) : a = b := by
  rcases first with ⟨x, rfl⟩
  induction a generalizing b with
  | nil =>
      cases b with
      | nil => rfl
      | cons c b =>
          rcases second with ⟨y, same⟩
          have head := (List.cons.inj same).1
          rw [head] at bPart
          exact absurd List.mem_cons_self bPart
  | cons c a ih =>
      cases b with
      | nil =>
          rcases second with ⟨y, same⟩
          have head := (List.cons.inj same).1
          rw [← head] at aPart
          exact absurd List.mem_cons_self aPart
      | cons d b =>
          have heads : d = c ∧ b ++ [sep] <+: a ++ [sep] ++ x := List.cons_prefix_cons.mp second
          rw [heads.1, ih (List.not_mem_of_not_mem_cons aPart)
            (List.not_mem_of_not_mem_cons bPart) heads.2]

/-- Entries in the order of a depth-first traversal. -/
inductive Forest (α : Type u) where
  | nil
  | file (entry : α) (rest : Forest α)
  | dir (entry : α) (contents rest : Forest α)

namespace Forest

/-- All entries, each directory directly followed by its contents. -/
def preorder : Forest α → List α
  | nil => []
  | file entry rest => entry :: rest.preorder
  | dir entry contents rest => entry :: (contents.preorder ++ rest.preorder)

/-- The entries that no other entry of the forest contains. -/
def tops : Forest α → List α
  | nil => []
  | file entry rest => entry :: rest.tops
  | dir entry _ rest => entry :: rest.tops

/-- A directory of the forest, with its contents. -/
def Holds : Forest α → α → Forest α → Prop
  | nil, _, _ => False
  | file _ rest, d, inside => rest.Holds d inside
  | dir entry contents rest, d, inside =>
      entry = d ∧ contents = inside ∨ contents.Holds d inside ∨ rest.Holds d inside

/-- The names of the entries of a directory with the given name. -/
def Named (name : α → List β) (sep : β) (base : List β) : Forest α → Prop
  | nil => True
  | file entry rest =>
      (∃ part, part ≠ [] ∧ sep ∉ part ∧ name entry = base ++ part) ∧ rest.Named name sep base
  | dir entry contents rest =>
      (∃ part, part ≠ [] ∧ sep ∉ part ∧ name entry = base ++ (part ++ [sep])) ∧
        contents.Named name sep (name entry) ∧ rest.Named name sep base

variable {name : α → List β} {sep : β} {base : List β} {F inside : Forest α} {d e : α}

theorem tops_subset_preorder (member : e ∈ F.tops) : e ∈ F.preorder := by
  induction F with
  | nil => cases member
  | file entry rest ih =>
      rcases List.mem_cons.mp member with rfl | later
      · exact List.mem_cons_self
      · exact List.mem_cons_of_mem _ (ih later)
  | dir entry contents rest _ ih =>
      rcases List.mem_cons.mp member with rfl | later
      · exact List.mem_cons_self
      · exact List.mem_cons_of_mem _ (List.mem_append_right _ (ih later))

theorem tops_length_le : F.tops.length ≤ F.preorder.length := by
  induction F with
  | nil => exact Nat.le_refl _
  | file entry rest ih => exact Nat.succ_le_succ ih
  | dir entry contents rest _ ih =>
      rw [tops, preorder, List.length_cons, List.length_cons, List.length_append]
      omega

/-- The first entry of a forest is not inside another one. -/
theorem preorder_head? : F.preorder.head? = F.tops.head? := by
  cases F <;> rfl

/-- Entries have the name of the directory in front of their own. -/
theorem Named.base_isInitial (named : F.Named name sep base) (member : e ∈ F.preorder) :
    base <+: name e := by
  induction F generalizing base with
  | nil => cases member
  | file entry rest ih =>
      rcases named with ⟨⟨part, _, _, same⟩, restNamed⟩
      rcases List.mem_cons.mp member with rfl | later
      · exact ⟨part, same.symm⟩
      · exact ih restNamed later
  | dir entry contents rest ihContents ihRest =>
      rcases named with ⟨⟨part, _, _, same⟩, contentsNamed, restNamed⟩
      rcases List.mem_cons.mp member with rfl | inner
      · exact ⟨part ++ [sep], same.symm⟩
      · rcases List.mem_append.mp inner with inner | later
        · exact List.IsPrefix.trans ⟨part ++ [sep], same.symm⟩ (ihContents contentsNamed inner)
        · exact ihRest restNamed later

/-- An entry whose name starts with the name of a directory next to it is inside a
directory of that name. -/
theorem Named.directory_of_initial (named : F.Named name sep base) (member : e ∈ F.preorder)
    {part : List β} (clean : sep ∉ part) (begins : base ++ (part ++ [sep]) <+: name e) :
    ∃ t ∈ F.tops, name t = base ++ (part ++ [sep]) := by
  induction F with
  | nil => cases member
  | file entry rest ih =>
      rcases named with ⟨⟨other, _, otherClean, same⟩, restNamed⟩
      rcases List.mem_cons.mp member with rfl | later
      · rw [same, List.prefix_append_right_inj] at begins
        exact absurd (begins.subset (by simp)) otherClean
      · rcases ih restNamed later with ⟨t, top, found⟩
        exact ⟨t, List.mem_cons_of_mem _ top, found⟩
  | dir entry contents rest _ ih =>
      rcases named with ⟨⟨other, _, otherClean, same⟩, contentsNamed, restNamed⟩
      have here : name entry <+: name e →
          ∃ t ∈ (dir entry contents rest).tops, name t = base ++ (part ++ [sep]) := by
        intro under
        rw [same] at under
        rcases under with ⟨x, under⟩
        rw [← under, List.append_assoc, List.prefix_append_right_inj] at begins
        have parts := part_unique clean otherClean begins ⟨x, rfl⟩
        exact ⟨entry, List.mem_cons_self, by rw [same, parts]⟩
      rcases List.mem_cons.mp member with rfl | inner
      · exact here (List.prefix_refl _)
      · rcases List.mem_append.mp inner with inner | later
        · exact here (contentsNamed.base_isInitial inner)
        · rcases ih restNamed later with ⟨t, top, found⟩
          exact ⟨t, List.mem_cons_of_mem _ top, found⟩

/-- Where a directory and its contents stand in the list.  No later entry has a name
that starts with the directory's. -/
theorem Named.split (named : F.Named name sep base) (distinct : (F.preorder.map name).Nodup)
    (holds : F.Holds d inside) :
    ∃ before after, F.preorder = before ++ d :: (inside.preorder ++ after) ∧
      ∀ e ∈ after, ¬ name d <+: name e := by
  induction F generalizing base with
  | nil => exact holds.elim
  | file entry rest ih =>
      have distinct' := (List.nodup_cons.mp distinct).2
      rcases ih named.2 distinct' holds with ⟨before, after, same, apart⟩
      refine ⟨entry :: before, after, ?_, apart⟩
      rw [preorder, same]
      rfl
  | dir entry contents rest ihContents ihRest =>
      rcases named with ⟨⟨part, _, clean, named⟩, contentsNamed, restNamed⟩
      rw [preorder, List.map_cons, List.map_append] at distinct
      rcases List.nodup_cons.mp distinct with ⟨fresh, distinct⟩
      rcases List.nodup_append.mp distinct with ⟨distinctContents, distinctRest, _⟩
      -- what comes behind the whole directory does not start with its name
      have later : ∀ e ∈ rest.preorder, ¬ name entry <+: name e := by
        intro e member begins
        rw [named] at begins
        rcases restNamed.directory_of_initial member clean begins with ⟨t, top, same⟩
        apply fresh
        rw [named, ← same]
        exact List.mem_append_right _ (List.mem_map_of_mem (tops_subset_preorder top))
      rcases holds with ⟨rfl, rfl⟩ | holds | holds
      · exact ⟨[], rest.preorder, rfl, later⟩
      · rcases ihContents contentsNamed distinctContents holds with ⟨before, after, same, apart⟩
        refine ⟨entry :: before, after ++ rest.preorder, ?_, ?_⟩
        · rw [preorder, same]
          simp
        · intro e member begins
          rcases List.mem_append.mp member with inner | outer
          · exact apart e inner begins
          · apply later e outer
            have member : d ∈ contents.preorder := by
              rw [same]
              simp
            exact (contentsNamed.base_isInitial member).trans begins
      · rcases ihRest restNamed distinctRest holds with ⟨before, after, same, apart⟩
        refine ⟨entry :: (contents.preorder ++ before), after, ?_, apart⟩
        rw [preorder, same]
        simp

/-- The contents of a directory are named after it, and its own name ends in the
separator. -/
theorem Named.holds (named : F.Named name sep base) (holds : F.Holds d inside) :
    inside.Named name sep (name d) ∧ ∃ front, name d = front ++ [sep] := by
  induction F generalizing base with
  | nil => exact holds.elim
  | file entry rest ih => exact ih named.2 holds
  | dir entry contents rest ihContents ihRest =>
      rcases named with ⟨⟨part, _, _, named⟩, contentsNamed, restNamed⟩
      rcases holds with ⟨rfl, rfl⟩ | holds | holds
      · exact ⟨contentsNamed, base ++ part, by rw [named, List.append_assoc]⟩
      · exact ihContents contentsNamed holds
      · exact ihRest restNamed holds

end Forest

end Sbrocks.Path
