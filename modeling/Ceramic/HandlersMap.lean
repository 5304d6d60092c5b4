import Ceramic.TileDocumentHandler
import Ceramic.Caip10LinkHandler
import Ceramic.ModelHandler
import Ceramic.ModelInstanceDocumentHandler

/-! The registry of stream handlers, and the laws all four of them obey: what an
applied commit does to the log, and what a refused one may leave behind. -/
namespace Ceramic

namespace HandlersMap

def defaultHandlers (env : Environment) : List StreamHandler :=
  [TileDocumentHandler.handler env, Caip10LinkHandler.handler env, ModelHandler.handler env,
    ModelInstanceDocumentHandler.handler env]

def get (env : Environment) (type : Nat) : Except JsError StreamHandler :=
  match (defaultHandlers env).find? fun handler => handler.type = type with
  | some handler => .ok handler
  | none => .error ⟨toString type ++ " is not a valid stream type"⟩

theorem get_mem {env : Environment} {type : Nat} {handler : StreamHandler}
    (h : get env type = .ok handler) : handler ∈ defaultHandlers env ∧ handler.type = type := by
  unfold get at h
  split at h
  next found eq =>
    obtain rfl : found = handler := by simpa using h
    exact ⟨List.mem_of_find?_eq_some eq, by simpa using List.find?_some eq⟩
  next => cases h

/-- No two handlers are registered for one type. -/
theorem get_of_mem {env : Environment} {handler : StreamHandler} (member : handler ∈ defaultHandlers env) :
    get env handler.type = .ok handler := by
  simp only [defaultHandlers, List.mem_cons, List.not_mem_nil, or_false] at member
  rcases member with rfl | rfl | rfl | rfl <;> rfl

/-- Every registered handler obeys the laws. -/
theorem mem_lawful {env : Environment} {handler : StreamHandler} (member : handler ∈ defaultHandlers env) :
    handler.Lawful env := by
  simp only [defaultHandlers, List.mem_cons, List.not_mem_nil, or_false] at member
  rcases member with rfl | rfl | rfl | rfl
  · exact TileDocumentHandler.lawful env
  · exact Caip10LinkHandler.lawful env
  · exact ModelHandler.lawful env
  · exact ModelInstanceDocumentHandler.lawful env

theorem get_lawful {env : Environment} {type : Nat} {handler : StreamHandler}
    (h : get env type = .ok handler) : handler.Lawful env ∧ handler.type = type := by
  obtain ⟨member, sameType⟩ := get_mem h
  exact ⟨mem_lawful member, sameType⟩

end HandlersMap

end Ceramic
