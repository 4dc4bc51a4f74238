import Conduit.Proofs.Mirror.Requests
import Conduit.Proofs.Scoping.Shell

/-!
# Whole States

In a whole state every scope that a stored closure or a module refers to exists.  Such a state
mirrors itself, each scope paired with itself.  A shell is whole when it starts with nothing stored,
and it stays whole when it evaluates a chunk or runs a line.
-/

namespace Conduit

open Act (Mirror Any)

variable {r : Pairing}

/-! ## Scopes of stored closures -/

namespace Value

mutual

/-- The scopes of closures in a value that has one alike are paired. -/
theorem Like.captured : ∀ {v v' : Value}, v.Like r v' → ∀ c ∈ v.closures, ∃ i', r c.captured i'
  | _, _, .absent, c, hc => by simp at hc
  | _, _, .text content, c, hc => by simp at hc
  | _, _, .list h, c, hc => AllLike.captured h c (by rwa [closures_list] at hc)
  | _, _, .fn (.builtin b), c, hc => by simp at hc
  | _, _, .fn (.inert name), c, hc => by simp [closures] at hc
  | _, _, .fn (.external name), c, hc => by simp at hc
  | _, _, .fn (.closure h), c, hc => by
    rw [closures_closure, List.mem_singleton] at hc
    exact hc ▸ ⟨_, h.captured⟩

theorem AllLike.captured : ∀ {vs vs' : List Value}, AllLike r vs vs' → ∀ c ∈ closuresOf vs,
    ∃ i', r c.captured i'
  | _, _, .nil, c, hc => by simp [closuresOf] at hc
  | _, _, .cons h hs, c, hc => by
    rw [closuresOf, List.mem_append] at hc
    rcases hc with hc | hc
    · exact Like.captured h c hc
    · exact AllLike.captured hs c hc

end

end Value

theorem Variable.Like.captured {x x' : Variable} (h : x.Like r x') :
    ∀ c ∈ x.closures, ∃ i', r c.captured i' := by
  cases h with
  | plain kind h => exact h.captured
  | readOnly h => exact h.captured
  | env name => exact nofun
  | shared name => exact nofun
  | paths => exact nofun

/-- A variable is like itself if the scopes of its closures are paired with themselves. -/
theorem Variable.like_self {x : Variable} (h : ∀ c ∈ x.closures, r c.captured c.captured) :
    x.Like r x := by
  cases x with
  | plain kind v => exact .plain kind (Value.like_self h)
  | readOnly v => exact .readOnly (Value.like_self h)
  | env name => exact .env name
  | shared name => exact .shared name
  | paths => exact .paths

/-- A table is like itself if each of its objects is. -/
theorem Table.like_self {α : Type} {R : α → α → Prop} {t : Table α}
    (h : ∀ id a, t.get? id = some a → R a a) : Table.Like R t t := by
  refine List.forall₂_same.mpr fun a ha ↦ ?_
  obtain ⟨id, hid⟩ := List.mem_iff_getElem?.mp ha
  exact h id a hid

theorem Table.Like.exists_right {α : Type} {R : α → α → Prop} {t t' : Table α} (h : Like R t t')
    {id : Nat} {a : α} (ha : t.get? id = some a) : ∃ a', R a a' := by
  have hget := h.get? id
  rw [ha] at hget
  generalize t'.get? id = found at hget
  cases hget with
  | some hr => exact ⟨_, hr⟩

/-! ## Whole states -/

namespace World

/-- Every scope that is referred to from outside of scopes exists. -/
structure Whole (w : World) : Prop where
  builtins : World.builtins < w.scopes.size
  closures : ∀ c, w.Stores c → c.captured < w.scopes.size
  modules : ∀ entry ∈ w.modules, entry.2 < w.scopes.size

/-- The scopes that exist, each paired with itself. -/
def existing (w : World) : Pairing := fun i i' ↦ i = i' ∧ i < w.scopes.size

variable {w w' : World}

/-- A whole state and a new scope in it that nothing refers to mirror themselves. -/
theorem Whole.mirrors (h : w.Whole) :
    (w.newScope {}).2.Mirrors w.scopes.size w.scopes.size w.existing (w.newScope {}).2 where
  bare := rfl
  memory :=
    { vars := Table.like_self fun id x hx ↦ Variable.like_self fun c hc ↦
        ⟨rfl, h.closures c (.inl ⟨id, x, hx, hc⟩)⟩
      channels := Table.like_self fun id line hline ↦ by
        refine ⟨⟨Value.allLike_self fun c hc ↦ ⟨rfl, h.closures c (.inr ⟨id, line, hline, ?_⟩)⟩,
          rfl, rfl⟩, rfl⟩
        exact Value.mem_closuresOf.mp hc
      modules := List.forall₂_same.mpr fun entry hentry ↦ ⟨rfl, rfl, h.modules entry hentry⟩
      exist := fun ⟨heq, hlt⟩ ↦ by
        rw [← heq]
        exact ⟨Nat.lt_of_lt_of_le hlt (by simp [World.newScope, memory]),
          Nat.lt_of_lt_of_le hlt (by simp [World.newScope, memory])⟩
      scope := fun ⟨heq, _⟩ ↦ heq ▸ rfl
      unique := fun ⟨hi, _⟩ ⟨hj, _⟩ ↦ by rw [hi, hj]
      globals := ⟨rfl, Nat.lt_of_le_of_lt (Nat.zero_le _) h.builtins⟩
      builtins := ⟨rfl, h.builtins⟩
      blank := by
        have hblank : (w.newScope {}).2.memory.scope w.scopes.size = {} :=
          Memory.scope_push_size w.memory {}
        exact ⟨hblank, hblank⟩
      existing := by simp [World.newScope, memory]
      apart := fun ⟨heq, hlt⟩ ↦ ⟨Nat.ne_of_lt hlt, heq ▸ Nat.ne_of_lt hlt⟩ }

/-- A state that has one alike is whole. -/
theorem Like.whole (h : w.Like r w') : w.Whole where
  builtins := (h.memory.exist h.memory.builtins).1
  closures c hc := by
    have hpaired : ∃ i', r c.captured i' := by
      rcases hc with ⟨id, x, hx, hc⟩ | ⟨id, line, hline, v, hv, hc⟩
      · obtain ⟨x', hlike⟩ := h.memory.vars.exists_right hx
        exact hlike.captured c hc
      · obtain ⟨line', hlike⟩ := h.memory.channels.exists_right hline
        exact hlike.channel.queue.captured c (Value.mem_closuresOf.mpr ⟨v, hv, hc⟩)
    obtain ⟨i', hi⟩ := hpaired
    exact (h.memory.exist hi).1
  modules entry hentry := by
    have hmodules : Table.Like _ ⟨w.memory.modules⟩ ⟨w'.memory.modules⟩ := h.memory.modules
    obtain ⟨id, hid⟩ := List.mem_iff_getElem?.mp hentry
    obtain ⟨entry', hlike⟩ := hmodules.exists_right hid
    exact (h.memory.exist hlike.2).1

/-- Handling endpoints leaves a state whole. -/
theorem Whole.handles (h : w.Whole) (hw : Handles w w') : w'.Whole where
  builtins := by
    rw [hw.scopes]
    exact h.builtins
  closures c hc := by
    rw [hw.scopes]
    exact h.closures c (hw.closures c hc)
  modules entry hentry := by
    rw [hw.modules] at hentry
    rw [hw.scopes]
    exact h.modules entry hentry

end World

/-! ## Whole shells -/

namespace Shell

open Eval (run)

/-- The context of a chunk at the top level, over the globals and a scope outside them. -/
def contextOver (outer : ScopeId) (name text : Bytes) (chunk : Script.Chunk)
    (endpoints : List (Option EndpointId)) : Context :=
  { name, text, label := utf8 "top", scope := World.globals, outer, endpoints, chunk }

/-- The contexts of two chunks at the top level are alike, each over a scope that takes no part in
the pairing. -/
theorem contextOver_like (o o' : ScopeId) (hglobals : r World.globals World.globals)
    (name text : Bytes) (chunk chunk' : Script.Chunk) (endpoints : List (Option EndpointId)) :
    (contextOver o name text chunk endpoints).Like o o' r
      (contextOver o' name text chunk' endpoints) :=
  ⟨⟨rfl, rfl⟩, rfl, rfl, hglobals, .inr ⟨rfl, rfl⟩⟩

/-- The evaluation of a chunk that compiles is the run of its code. -/
theorem eval_of_compile {w : World} {chunk : Script.Chunk} {code : Code.Block}
    (h : compile w chunk = .ok code) (setup : Setup) (fuel : Nat) (name text : Bytes)
    (endpoints : List (Option EndpointId)) :
    eval setup fuel name text chunk endpoints w =
      Act.within (wholeSpan text) (Act.attempt (Eval.evalPipelines (run setup fuel)
        (contextOver w.scopes.size name text chunk endpoints) code.pipelines))
          (w.newScope {}).2 := by
  rw [eval, Act.world_bind, h]
  rfl

/-- A shell is whole when it starts with nothing stored and no modules. -/
theorem whole_start {w : World} (hstores : ∀ c, ¬w.Stores c) (hmodules : w.modules = []) :
    (start w).Whole := by
  have hnone : ∀ c, ¬(start w).Stores c := fun c hc ↦ hstores c (start_stores hc)
  refine ⟨?_, fun c hc ↦ absurd hc (hnone c), fun entry hentry ↦ ?_⟩
  · rw [size_start_scopes]
    decide
  · rw [start_modules, hmodules] at hentry
    cases hentry

/-- An evaluation leaves the shell whole, however it ends. -/
theorem whole_eval {w : World} (hw : w.Whole) (setup : Setup) (fuel : Nat) (name text : Bytes)
    (chunk : Script.Chunk) (endpoints : List (Option EndpointId)) :
    (eval setup fuel name text chunk endpoints w).2.Whole := by
  rcases hcode : compile w chunk with e | code
  · rw [eval, Act.world_bind, hcode]
    exact hw
  · let n := w.scopes.size
    have hstart : (w.newScope {}).2.Mirrors n n w.existing (w.newScope {}).2 := hw.mirrors
    have hctx := contextOver_like n n hstart.memory.globals name text chunk chunk endpoints
    have hgo : Eval.Runner.Mirrored n n (run setup fuel) := Eval.mirrored_run n n setup fuel
    have hends := Mirror.within hstart (wholeSpan text) fun v v' hv ↦
      (Eval.mirror_evalPipelines hgo hctx hv code.pipelines).attempt
    obtain ⟨s, -, hend⟩ := hends.mirrors
    rw [eval_of_compile hcode]
    exact hend.like.whole

/-- A line leaves the shell whole as well. -/
theorem whole_evalInteractive {w : World} (hw : w.Whole) (setup : Setup) (fuel : Nat)
    (text : Bytes) (chunk : Script.Chunk) :
    (evalInteractive setup fuel text chunk w).2.Whole := by
  obtain ⟨ready, endpoints, hready, hend⟩ := handles_evalInteractive setup fuel text chunk w
  have hrun := whole_eval (hw.handles hready) setup fuel interactiveName text chunk endpoints
  exact hrun.handles hend

end Shell

end Conduit
