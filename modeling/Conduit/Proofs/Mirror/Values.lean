import Mathlib.Data.List.Forall2
import Mathlib.Order.Basic
import Conduit.Proofs.Calm

/-!
# Values up to the Identity of Scopes

Two values are alike if they are built in the same way and their closures come from the same lambda
of sources with the same name and text, over scopes that are paired with each other.  The chunk that
a source was compiled from does not matter.  Whatever evaluation asks of a value, its kind, its text
or its printed form, is answered in the same way by a value that is alike.
-/

namespace Conduit

/-- Which scopes of one state stand for which scopes of another one. -/
abbrev Pairing := ScopeId → ScopeId → Prop

variable {r s : Pairing}

/-- Two closures of the same lambda over paired scopes. -/
structure Closure.Like (r : Pairing) (c c' : Closure) : Prop where
  parameters : c'.parameters = c.parameters
  body : c'.body = c.body
  name : c'.name = c.name
  text : c'.text = c.text
  captured : r c.captured c'.captured

/-- Two functions that are the same but for the scopes of closures. -/
inductive Fn.Like (r : Pairing) : Fn → Fn → Prop where
  | builtin (b : Builtin) : Like r (.builtin b) (.builtin b)
  | inert (name : Bytes) : Like r (.inert name) (.inert name)
  | external (name : Bytes) : Like r (.external name) (.external name)
  | closure {c c' : Closure} (h : c.Like r c') : Like r (.closure c) (.closure c')

/-- Two values that are the same but for the scopes of closures. -/
inductive Value.Like (r : Pairing) : Value → Value → Prop where
  | absent : Like r .absent .absent
  | text (content : Bytes) : Like r (.text content) (.text content)
  | list {items items' : List Value} (h : List.Forall₂ (Like r) items items') :
      Like r (.list items) (.list items')
  | fn {f f' : Fn} (h : f.Like r f') : Like r (.fn f) (.fn f')

/-- Two lists of values that are alike one by one. -/
abbrev Value.AllLike (r : Pairing) : List Value → List Value → Prop := List.Forall₂ (Value.Like r)

/-! ## More pairs -/

theorem Fn.Like.mono (hrs : r ≤ s) {f f' : Fn} (h : f.Like r f') :
    f.Like s f' := by
  cases h with
  | builtin b => exact .builtin b
  | inert name => exact .inert name
  | external name => exact .external name
  | closure h => exact .closure ⟨h.parameters, h.body, h.name, h.text, hrs _ _ h.captured⟩

mutual

theorem Value.Like.mono (hrs : r ≤ s) :
    ∀ {v v' : Value}, v.Like r v' → v.Like s v'
  | _, _, .absent => .absent
  | _, _, .text content => .text content
  | _, _, .list h => .list (Value.AllLike.mono hrs h)
  | _, _, .fn h => .fn (h.mono hrs)

theorem Value.AllLike.mono (hrs : r ≤ s) :
    ∀ {vs vs' : List Value}, Value.AllLike r vs vs' → Value.AllLike s vs vs'
  | _, _, .nil => .nil
  | _, _, .cons h hs => .cons (Value.Like.mono hrs h) (Value.AllLike.mono hrs hs)

end

/-! ## What is asked of values -/

theorem Fn.Like.show_eq {f f' : Fn} (h : f.Like r f') : f'.show = f.show := by
  cases h <;> rfl

namespace Value

theorem Like.kind?_eq {v v' : Value} (h : v.Like r v') : v'.kind? = v.kind? := by
  cases h <;> rfl

theorem Like.toText_eq (role : Bytes) {v v' : Value} (h : v.Like r v') :
    v'.toText role = v.toText role := by
  cases h with
  | text content => rfl
  | absent => rfl
  | list h => rfl
  | fn h => rfl

theorem reprItems_cons_cons (v u : Value) (rest : List Value) :
    reprItems (v :: u :: rest) = v.repr ++ utf8 " " ++ reprItems (u :: rest) := by
  rw [reprItems]
  simp

mutual

theorem Like.repr_eq : ∀ {v v' : Value}, v.Like r v' → v'.repr = v.repr
  | _, _, .absent => rfl
  | _, _, .text content => rfl
  | _, _, .list h => by rw [repr, repr, AllLike.reprItems_eq h]
  | _, _, .fn h => by rw [repr, repr, h.show_eq]

theorem AllLike.reprItems_eq : ∀ {vs vs' : List Value}, AllLike r vs vs' →
    reprItems vs' = reprItems vs
  | _, _, .nil => rfl
  | _, _, .cons h .nil => by rw [reprItems, reprItems, Like.repr_eq h]
  | v :: u :: rest, v' :: u' :: rest', .cons h (.cons h' hs) => by
    have hrest : reprItems (u' :: rest') = reprItems (u :: rest) :=
      AllLike.reprItems_eq (.cons h' hs)
    rw [reprItems_cons_cons, reprItems_cons_cons, Like.repr_eq h, hrest]

end

theorem Like.word_eq {v v' : Value} (h : v.Like r v') : v'.word = v.word := by
  cases h with
  | text content => rfl
  | absent => rfl
  | list h => exact Like.repr_eq (.list h)
  | fn h => exact Like.repr_eq (.fn h)

theorem allLike_texts (r : Pairing) (contents : List Bytes) :
    AllLike r (contents.map text) (contents.map text) :=
  List.forall₂_same.mpr fun v hv ↦ by
    obtain ⟨content, -, rfl⟩ := List.mem_map.mp hv
    exact .text content

theorem AllLike.append {vs vs' us us' : List Value} (h : AllLike r vs vs')
    (h' : AllLike r us us') : AllLike r (vs ++ us) (vs' ++ us') :=
  List.rel_append h h'

mutual

/-- A value is like itself if the scopes of its closures are paired with themselves. -/
theorem like_self : ∀ {v : Value}, (∀ c ∈ v.closures, r c.captured c.captured) → v.Like r v
  | .absent, _ => .absent
  | .text content, _ => .text content
  | .list items, h => .list (allLike_self fun c hc ↦ h c (by rwa [closures_list]))
  | .fn (.builtin b), _ => .fn (.builtin b)
  | .fn (.inert name), _ => .fn (.inert name)
  | .fn (.external name), _ => .fn (.external name)
  | .fn (.closure c), h => .fn (.closure ⟨rfl, rfl, rfl, rfl, h c (by simp)⟩)

theorem allLike_self : ∀ {vs : List Value}, (∀ c ∈ closuresOf vs, r c.captured c.captured) →
    AllLike r vs vs
  | [], _ => .nil
  | v :: rest, h =>
    .cons (like_self fun c hc ↦ h c (by simp [closuresOf, hc]))
      (allLike_self fun c hc ↦ h c (by simp [closuresOf, hc]))

end

end Value

end Conduit
