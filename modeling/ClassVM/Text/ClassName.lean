import ClassVM.Text.Split

namespace ClassVM.ClassName

/-- The internal form of a name in either spelling. -/
def internal (name : String) : String := Text.replaceChar '.' '/' name

/-- The binary form of a name in either spelling. -/
def binary (name : String) : String := Text.replaceChar '/' '.' name

theorem internal_toList (name : String) :
    (internal name).toList = name.toList.map fun c => if c = '.' then '/' else c := by
  simp [internal, Text.replaceChar]

theorem internal_internal (name : String) : internal (internal name) = internal name := by
  apply String.toList_injective
  simp only [internal_toList, List.map_map]
  apply List.map_congr_left
  intro c _
  by_cases h : c = '.' <;> simp [h]

end ClassVM.ClassName
