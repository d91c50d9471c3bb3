/-!
# Destructuring

A destructuring takes a value apart and gives names to its parts.  `Shape` says how, with defaults
of any kind; `leaves?` lists the names with the way in which each part is reached from the whole.
-/

namespace IndicatorCompiler.Script

/-- What a destructuring binds, with defaults in `δ`. -/
inductive Shape (δ : Type) where
  | binding (name : String)
  /-- Elements by position; a hole binds nothing. -/
  | array (items : List (Option (Shape δ)))
  /-- Properties by key. -/
  | object (properties : List (String × Shape δ))
  | withDefault (target : Shape δ) (value : δ)
  /-- All elements from a position on; stands only in arrays. -/
  | rest (target : Shape δ)

/-- How parts `σ` of a value are reached. -/
structure Access (σ δ : Type) where
  /-- The element at a position. -/
  element : σ → Nat → σ
  /-- The elements from a position on. -/
  elementsFrom : σ → Nat → σ
  /-- The property with a key. -/
  property : σ → String → σ
  /-- The part, or a default if there is none. -/
  orDefault : σ → δ → σ

namespace Shape

variable {σ δ : Type}

mutual
/-- The names that a shape binds, each with its part of `source`; nothing if a rest element stands
outside an array. -/
def leaves? (access : Access σ δ) (source : σ) : Shape δ → Option (List (String × σ))
  | .binding name => some [(name, source)]
  | .withDefault target value => leaves? access (access.orDefault source value) target
  | .array items => itemLeaves? access source 0 items
  | .object properties => propertyLeaves? access source properties
  | .rest _ => none

/-- The leaves of the elements from position `i` on. -/
def itemLeaves? (access : Access σ δ) (source : σ) (i : Nat) :
    List (Option (Shape δ)) → Option (List (String × σ))
  | [] => some []
  | none :: more => itemLeaves? access source (i + 1) more
  | some (.rest target) :: more => do
    let first ← leaves? access (access.elementsFrom source i) target
    return first ++ (← itemLeaves? access source (i + 1) more)
  | some item :: more => do
    let first ← leaves? access (access.element source i) item
    return first ++ (← itemLeaves? access source (i + 1) more)

/-- The leaves of properties. -/
def propertyLeaves? (access : Access σ δ) (source : σ) :
    List (String × Shape δ) → Option (List (String × σ))
  | [] => some []
  | (key, value) :: more => do
    let first ← leaves? access (access.property source key) value
    return first ++ (← propertyLeaves? access source more)
end

end Shape

end IndicatorCompiler.Script
