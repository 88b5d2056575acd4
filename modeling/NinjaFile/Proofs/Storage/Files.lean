import NinjaFile.Storage.Tree

/-!
# Files that stay

What a storage has of files is told by location (`Storage.fileAt?`), and two storages
have the same files if they have the same at every location (`Storage.SameFiles`).
Writing a file changes what is at one location (`Storage.fileAt?_put_of_ne`). Making
directories changes no file at all: every node stays, and what is new is a directory
(`Storage.grown_makeDirectories`), also where a parent cannot be made and those before it
stay.
-/

namespace NinjaFile.Storage

/-! ## Files by location -/

def fileAt? (s : Storage) (location : Location) : Option (List UInt8) :=
  match s.node? location with
  | some (.file octets) => some octets
  | _ => none

theorem fileAt?_eq_some {s : Storage} {location : Location} {octets : List UInt8} :
    s.fileAt? location = some octets ↔ s.node? location = some (.file octets) := by
  unfold fileAt?
  split
  · rename_i h
    rw [h]
    simp
  · rename_i h
    exact iff_of_false (by simp) (h octets)

/-- No file is changed, created or gone. -/
def SameFiles (before after : Storage) : Prop :=
  ∀ location, after.fileAt? location = before.fileAt? location

theorem fileAt?_put_self {s : Storage} {p : Path} {location : Location}
    (h : s.writable p = .ok location) (octets : List UInt8) :
    (s.put location (.file octets)).fileAt? location = some octets := by
  obtain ⟨-, hFree⟩ := writable_eq_ok.1 h
  exact fileAt?_eq_some.2 (node?_put_self s _ (all_eq_false_of_node? hFree))

theorem fileAt?_put_of_ne (s : Storage) {location other : Location} (node : Node)
    (h : other ≠ location) : (s.put location node).fileAt? other = s.fileAt? other := by
  rw [fileAt?, node?_put_of_ne s node h, ← fileAt?]

/-! ## Directories -/

/-- Every node is as it was, but for directories where there was nothing. -/
def Grown (before after : Storage) : Prop :=
  ∀ location, after.node? location = before.node? location ∨
    before.node? location = none ∧ after.node? location = some .directory

theorem Grown.refl (s : Storage) : s.Grown s := fun _ => Or.inl rfl

theorem Grown.trans {s t u : Storage} (h : s.Grown t) (h' : t.Grown u) : s.Grown u := by
  intro location
  rcases h' location with hSame | ⟨hNone, hNew⟩
  · rw [hSame]
    exact h location
  · rcases h location with hBefore | ⟨-, hDirectory⟩
    · exact Or.inr ⟨hBefore ▸ hNone, hNew⟩
    · rw [hNone] at hDirectory
      cases hDirectory

theorem Grown.sameFiles {s t : Storage} (h : s.Grown t) : s.SameFiles t := by
  intro location
  rcases h location with hSame | ⟨hNone, hNew⟩
  · rw [fileAt?, hSame, ← fileAt?]
  · rw [fileAt?, fileAt?, hNone, hNew]

theorem grown_makeDirectory {s after : Storage} {p : Path} (h : s.makeDirectory p = .ok after) :
    s.Grown after := by
  obtain ⟨location, -, h⟩ := Outcome.bind_eq_ok.1 h
  cases hNode : s.node? location with
  | some node =>
      rw [hNode] at h
      cases h
  | none =>
      rw [hNode] at h
      cases h
      intro other
      by_cases hOther : other = location
      · rw [hOther]
        have hFree : s.node? location ≠ some .directory := by simp [hNode]
        exact Or.inr ⟨hNode, node?_put_self s .directory (all_eq_false_of_node? hFree)⟩
      · exact Or.inl (node?_put_of_ne s .directory hOther)

/-- **Making directories** leaves everything that is there, whether it succeeds or not. -/
theorem grown_makeDirectories (s : Storage) (p : Path) : s.Grown (s.makeDirectories p).1 := by
  fun_induction makeDirectories s p with
  | case1 p after hMade => exact grown_makeDirectory hMade
  | case2 => exact Grown.refl _
  | case3 p path _ _ parents refusal hParents ih =>
      rw [hParents] at ih
      exact ih
  | case4 p path _ _ parents hParents after hMade ih =>
      rw [hParents] at ih
      exact ih.trans (grown_makeDirectory hMade)
  | case5 p path _ _ parents hParents refusal _ _ ih
  | case6 p path _ _ parents hParents refusal _ _ ih =>
      rw [hParents] at ih
      exact ih
  | case7 => exact Grown.refl _
  | case8 => exact Grown.refl _

end NinjaFile.Storage
