import ApiSurface.TypeRef.Renaming

/-!
# Names replaced in types

Replacing names depends only on what happens to the names that occur.  A declaration whose type
variables keep their names renames nothing, so a type compared with itself is the same type.
-/

namespace ApiSurface

namespace TypeRef

mutual

/-- Two ways to replace names that agree on the names of a type give the same type. -/
theorem mapNames_congr {f g : String → String} :
    (t : TypeRef) → (∀ name ∈ t.names, f name = g name) → t.mapNames f = t.mapNames g
  | ⟨name, arguments, dimensions, bound, nullability, annotations⟩, h => by
    have hname : f name = g name := h name (by simp [names])
    have harguments : mapNamesList f arguments = mapNamesList g arguments :=
      mapNamesList_congr arguments fun n hn => h n (by simp [names, hn])
    have hbound : mapNamesBound f bound = mapNamesBound g bound :=
      mapNamesBound_congr bound fun n hn => h n (by simp [names, hn])
    simp only [mapNames, hname, harguments, hbound]

theorem mapNamesList_congr {f g : String → String} :
    (ts : List TypeRef) → (∀ name ∈ namesList ts, f name = g name) →
      mapNamesList f ts = mapNamesList g ts
  | [], _ => rfl
  | t :: ts, h => by
    rw [mapNamesList, mapNamesList, mapNames_congr t fun n hn => h n (by simp [namesList, hn]),
      mapNamesList_congr ts fun n hn => h n (by simp [namesList, hn])]

theorem mapNamesBound_congr {f g : String → String} :
    (bound : Option (WildcardBound TypeRef)) → (∀ name ∈ namesBound bound, f name = g name) →
      mapNamesBound f bound = mapNamesBound g bound
  | none, _ => rfl
  | some (.upper t), h => by
    rw [mapNamesBound, mapNamesBound, mapNames_congr t h]
  | some (.lower t), h => by
    rw [mapNamesBound, mapNamesBound, mapNames_congr t h]

end

mutual

theorem mapNames_id : (t : TypeRef) → t.mapNames id = t
  | ⟨name, arguments, dimensions, bound, nullability, annotations⟩ => by
    simp only [mapNames, mapNamesList_id arguments, mapNamesBound_id bound, id]

theorem mapNamesList_id : (ts : List TypeRef) → mapNamesList id ts = ts
  | [] => rfl
  | t :: ts => by rw [mapNamesList, mapNames_id t, mapNamesList_id ts]

theorem mapNamesBound_id :
    (bound : Option (WildcardBound TypeRef)) → mapNamesBound id bound = bound
  | none => rfl
  | some (.upper t) => by rw [mapNamesBound, mapNames_id t]
  | some (.lower t) => by rw [mapNamesBound, mapNames_id t]

end

/-- A type in which no name is replaced stays as it is. -/
theorem mapNames_eq_self
    {f : String → String} {t : TypeRef} (h : ∀ name ∈ t.names, f name = name) :
    t.mapNames f = t := by
  rw [mapNames_congr t h]
  exact mapNames_id t

end TypeRef

namespace Renaming

/-- Variables that keep their names are not renamed. -/
theorem between_self (ps : List TypeParameter) : between ps ps = [] := by
  rw [between, List.reverse_eq_nil_iff, List.filter_eq_nil_iff, List.zip, List.zipWith_self,
    List.map_map]
  intro p hp
  obtain ⟨v, -, rfl⟩ := List.mem_map.mp hp
  simp

theorem apply_nil (name : String) : apply [] name = name :=
  rfl

theorem sameType_nil (t : TypeRef) : sameType [] t t = true := by
  rw [sameType, TypeRef.mapNames_eq_self fun name _ => apply_nil name]
  exact beq_self_eq_true _

end Renaming

end ApiSurface
