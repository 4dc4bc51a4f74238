import Mathlib.Algebra.GroupWithZero.Nat
import Mathlib.Data.List.ReduceOption
import Conduit.Proofs.Holding.References

/-!
# Independent Holders

Whatever a host does with endpoints and contexts, in any order: every endpoint counts the references
to it that there are, an owned stream is closed once, with its last holder, and not before, a stream
that is not owned is never closed, closing an endpoint closes a channel only if it is marked for it
and still holds it, forks are never marked, and what happens to one context leaves the endpoints of
the others where they are.
-/

namespace Conduit

/-- Replacing an entry of a list takes its old weight out of the sum and puts the new one in. -/
theorem sum_map_set {α : Type} (f : α → Nat) {l : List α} {i : Nat} {old : α}
    (h : l[i]? = some old) (new : α) :
    ((l.set i new).map f).sum + f old = (l.map f).sum + f new := by
  induction l generalizing i with
  | nil => cases h
  | cons a rest ih =>
    cases i with
    | zero =>
      obtain rfl : a = old := Option.some.inj h
      simp only [List.set_cons_zero, List.map_cons, List.sum_cons]
      omega
    | succ i =>
      have hrest := ih (i := i) h
      simp only [List.set_cons_succ, List.map_cons, List.sum_cons]
      omega

/-- Growing a vector adds no endpoint to it. -/
theorem count_grow (endpoints : List (Option EndpointId)) (length : Nat) (id : EndpointId) :
    (World.grow endpoints length).count (some id) = endpoints.count (some id) := by
  rw [World.grow, List.count_append, List.count_replicate]
  simp

/-- Filling a place of a grown vector takes out what stood there and puts in what is given. -/
theorem count_set_grow (endpoints : List (Option EndpointId)) (n : Nat) (e : Option EndpointId)
    (id : EndpointId) :
    ((World.grow endpoints (n + 1)).set n e).count (some id) +
        (if World.slot (World.grow endpoints (n + 1)) n = some id then 1 else 0) =
      endpoints.count (some id) + if e = some id then 1 else 0 := by
  have hlength : n < (World.grow endpoints (n + 1)).length := by
    rw [World.grow, List.length_append, List.length_replicate]
    omega
  have hgrown := count_grow endpoints (n + 1) id
  have hslot : World.slot (World.grow endpoints (n + 1)) n =
      (World.grow endpoints (n + 1))[n] := by
    rw [World.slot, List.getElem?_eq_getElem hlength]
    rfl
  rw [List.count_set hlength, hslot, hgrown]
  by_cases hold : (World.grow endpoints (n + 1))[n] = some id
  · have hpos : 0 < (World.grow endpoints (n + 1)).count (some id) :=
      List.count_pos_iff.mpr (hold ▸ List.getElem_mem hlength)
    rw [hgrown] at hpos
    simp [hold]
    omega
  · simp [hold]

theorem count_reduceOption (endpoints : List (Option EndpointId)) (id : EndpointId) :
    endpoints.reduceOption.count id = endpoints.count (some id) := by
  induction endpoints with
  | nil => rfl
  | cons e rest ih =>
    cases e with
    | none =>
      have hne : none ≠ some id := nofun
      rw [List.count_cons_of_ne hne]
      exact ih
    | some other =>
      change (other :: rest.reduceOption).count id = _
      simp [List.count_cons, ih]

namespace Holding

variable {s : Holding} {op : Operation} {i : Nat} {ctx : Context}

/-! ## References that there are -/

/-- The references to an endpoint from a place for a context. -/
def referencesFrom (id : EndpointId) (ctx : Option Context) : Nat :=
  ctx.elim 0 fun ctx ↦ ctx.endpoints.count (some id)

/-- The references to an endpoint among loose ones and from contexts. -/
def referencesIn (loose : List EndpointId) (contexts : List (Option Context)) (id : EndpointId) :
    Nat :=
  loose.count id + (contexts.map (referencesFrom id)).sum

/-- The references to an endpoint that there are. -/
def references (s : Holding) (id : EndpointId) : Nat := referencesIn s.loose s.contexts id

section ReferencesIn

variable (loose : List EndpointId) (contexts : List (Option Context)) (id : EndpointId)

theorem referencesIn_cons (other : EndpointId) :
    referencesIn (other :: loose) contexts id =
      referencesIn loose contexts id + if other = id then 1 else 0 := by
  simp only [referencesIn, List.count_cons, beq_iff_eq]
  omega

theorem referencesIn_append (more : List EndpointId) :
    referencesIn (more ++ loose) contexts id = referencesIn loose contexts id + more.count id := by
  simp only [referencesIn, List.count_append]
  omega

theorem referencesIn_erase {other : EndpointId} (h : other ∈ loose) :
    referencesIn (loose.erase other) contexts id =
      referencesIn loose contexts id - if other = id then 1 else 0 := by
  have hpos := List.count_pos_iff.mpr h
  simp only [referencesIn, List.count_erase, beq_iff_eq]
  split
  · next heq =>
    subst heq
    omega
  · rfl

theorem referencesIn_snoc (ctx : Option Context) :
    referencesIn loose (contexts ++ [ctx]) id =
      referencesIn loose contexts id + referencesFrom id ctx := by
  simp only [referencesIn, List.map_append, List.sum_append, List.map_singleton,
    List.sum_singleton]
  omega

theorem referencesIn_set {old : Option Context} (h : contexts[i]? = some old)
    (new : Option Context) :
    referencesIn loose (contexts.set i new) id + referencesFrom id old =
      referencesIn loose contexts id + referencesFrom id new := by
  have hsum := sum_map_set (referencesFrom id) h new
  simp only [referencesIn]
  omega

end ReferencesIn

theorem refers_iff {id : EndpointId} : s.Refers id ↔ 0 < s.references id := by
  have hfrom : ∀ ctx : Option Context, 0 < referencesFrom id ctx ↔
      ∃ c, ctx = some c ∧ some id ∈ c.endpoints := by
    intro ctx
    cases ctx <;> simp [referencesFrom, List.count_pos_iff]
  have hsum : 0 < (s.contexts.map (referencesFrom id)).sum ↔
      ∃ ctx ∈ s.contexts, 0 < referencesFrom id ctx := by
    generalize s.contexts = contexts
    induction contexts with
    | nil => simp
    | cons a rest ih =>
      simp only [List.map_cons, List.sum_cons, List.mem_cons, exists_eq_or_imp, ← ih]
      omega
  rw [references, referencesIn, Nat.add_pos_iff_pos_or_pos, hsum, List.count_pos_iff, Refers]
  refine or_congr Iff.rfl ⟨?_, ?_⟩
  · rintro ⟨c, hc, hid⟩
    exact ⟨some c, hc, (hfrom _).mpr ⟨c, rfl, hid⟩⟩
  · rintro ⟨ctx, hctx, hpos⟩
    obtain ⟨c, rfl, hid⟩ := (hfrom ctx).mp hpos
    exact ⟨c, hctx, hid⟩

theorem get?_contexts (h : s.context? i = some ctx) : s.contexts[i]? = some (some ctx) :=
  Option.join_eq_some_iff.mp h

/-- A context may be replaced if the references that it had are let go and those of the new one are
counted. -/
theorem counted_replace {w : World} {id : EndpointId}
    (hcounted : s.world.referenceCount id = s.references id) (hctx : s.context? i = some ctx)
    (replacement : Option Context)
    (hw : w.referenceCount id = s.world.referenceCount id + referencesFrom id replacement -
      referencesFrom id (some ctx)) :
    w.referenceCount id = referencesIn s.loose (s.contexts.set i replacement) id := by
  have hset := referencesIn_set s.loose s.contexts id (get?_contexts hctx) replacement
  rw [hw, hcounted, references]
  omega

/-- What holds without a context, and of what is done with it, holds of doing it if it is there. -/
theorem withContext_cases {P : Holding → Prop} {f : Context → Holding} (hnone : P s)
    (hsome : ∀ ctx, s.context? i = some ctx → P (f ctx)) : P (s.withContext i f) := by
  unfold withContext
  cases h : s.context? i with
  | none => exact hnone
  | some ctx => exact hsome ctx h

/-! ## What every operation leaves alone -/

/-- Every operation is made of single moves. -/
theorem moves_perform {R : World → World → Prop} (h : World.Moves R) (s : Holding)
    (op : Operation) :
    R s.world (s.perform op).world := by
  cases op with
  | addChannel capacity => exact h.newChannel s.world _
  | openEndpoint device owned channel closesChannel =>
    exact h.trans (h.newStream s.world device owned) (h.newEndpoint _ _)
  | shareEndpoint stream channel closesChannel => exact h.newEndpoint s.world _
  | forkEndpoint id => exact h.newEndpoint s.world _
  | referTo id => exact h.referTo s.world id
  | closeEndpoint id => exact h.closeEndpoint s.world id
  | dropEndpoint id => exact h.dropEndpoint s.world id
  | addContext ctx => exact h.foldl h.referTo ctx.endpoints s.world
  | forkContext i label | forkEndpoints i =>
    exact withContext_cases (P := fun s' ↦ R s.world s'.world) (h.refl _)
      fun ctx _ ↦ h.forkEndpoints s.world ctx.endpoints
  | setEndpoint i n e =>
    exact withContext_cases (P := fun s' ↦ R s.world s'.world) (h.refl _)
      fun ctx _ ↦ h.setEndpoint s.world ctx.endpoints n e
  | grow i length =>
    exact withContext_cases (P := fun s' ↦ R s.world s'.world) (h.refl _) fun _ _ ↦ h.refl _
  | closeContext i =>
    exact withContext_cases (P := fun s' ↦ R s.world s'.world) (h.refl _)
      fun ctx _ ↦ h.foldl h.closeEndpoint ctx.endpoints s.world
  | dropContext i =>
    exact withContext_cases (P := fun s' ↦ R s.world s'.world) (h.refl _)
      fun ctx _ ↦ h.foldl h.dropEndpoint ctx.endpoints s.world

/-- What has been closed stays closed. -/
theorem closings_perform (s : Holding) (op : Operation) :
    s.closings <+: (s.perform op).closings := by
  cases op with
  | addChannel | openEndpoint | shareEndpoint | forkEndpoint | referTo | addContext =>
    exact List.prefix_rfl
  | closeEndpoint id | dropEndpoint id => exact List.prefix_append _ _
  | forkContext i label | forkEndpoints i | grow i length =>
    exact withContext_cases (P := fun s' ↦ s.closings <+: s'.closings) List.prefix_rfl
      fun _ _ ↦ List.prefix_rfl
  | setEndpoint i n e | closeContext i | dropContext i =>
    exact withContext_cases (P := fun s' ↦ s.closings <+: s'.closings) List.prefix_rfl
      fun _ _ ↦ List.prefix_append _ _

/-- What an operation adds to the forks leaves its channel open. -/
theorem forks_perform (s : Holding) (op : Operation) :
    ∀ id ∈ (s.perform op).forks, id ∈ s.forks ∨ (s.perform op).world.SparesChannel id := by
  cases op with
  | addChannel | openEndpoint | shareEndpoint | referTo | closeEndpoint | dropEndpoint
  | addContext => exact fun _ hid ↦ .inl hid
  | forkEndpoint other =>
    intro id hid
    rcases List.mem_cons.mp hid with rfl | hid
    · exact .inr (World.sparesChannel_forkEndpoint s.world other)
    · exact .inl hid
  | forkContext i label | forkEndpoints i =>
    refine withContext_cases
      (P := fun s' ↦ ∀ id ∈ s'.forks, id ∈ s.forks ∨ s'.world.SparesChannel id)
      (fun _ hid ↦ .inl hid) fun ctx _ id hid ↦ ?_
    rcases List.mem_append.mp hid with hid | hid
    · exact .inr (World.sparesChannel_forkEndpoints s.world ctx.endpoints id
        (List.reduceOption_mem_iff.mp hid))
    · exact .inl hid
  | setEndpoint i n e | grow i length | closeContext i | dropContext i =>
    exact withContext_cases
      (P := fun s' ↦ ∀ id ∈ s'.forks, id ∈ s.forks ∨ s'.world.SparesChannel id)
      (fun _ hid ↦ .inl hid) fun _ _ _ hid ↦ .inl hid

/-- An operation closes the channels of the endpoints that it closes, as far as they are marked for
it, and no others. -/
theorem closesExactly_perform (s : Holding) (op : Operation) :
    World.ClosesExactly (fun channel ↦ ∃ id ∈ s.closed op, s.world.Closes id channel) s.world
      (s.perform op).world := by
  have hnone : ∀ {s' : Holding}, s.closed op = [] → s'.world.channels = s.world.channels →
      World.ClosesExactly (fun channel ↦ ∃ id ∈ s.closed op, s.world.Closes id channel) s.world
        s'.world :=
    fun hclosed hchannels ↦ (World.ClosesExactly.of_channels hchannels).mono (by simp [hclosed])
  cases op with
  | addChannel capacity =>
    refine fun channel line hline ↦ ⟨line, ?_, by simp [closed]⟩
    exact (Table.get?_push_of_lt (Table.lt_size_of_get? hline)).trans hline
  | openEndpoint device owned channel closesChannel =>
    exact hnone rfl (World.newEndpoint_channels (s.world.newStream device owned).2 _)
  | shareEndpoint stream channel closesChannel =>
    exact hnone rfl (World.newEndpoint_channels s.world _)
  | forkEndpoint id => exact hnone rfl (World.newEndpoint_channels s.world _)
  | referTo id => exact hnone rfl rfl
  | closeEndpoint id =>
    exact (World.ClosesExactly.closeEndpoint s.world id).mono (by simp [closed])
  | dropEndpoint id => exact hnone rfl (World.dropEndpoint_channels s.world id)
  | addContext ctx => exact hnone rfl (World.referToAll_channels s.world ctx.endpoints)
  | forkContext i label | forkEndpoints i =>
    exact withContext_cases (P := fun s' ↦ World.ClosesExactly _ s.world s'.world) (hnone rfl rfl)
      fun ctx _ ↦ hnone rfl (World.forkEndpoints_channels s.world ctx.endpoints)
  | setEndpoint i n e =>
    refine withContext_cases (P := fun s' ↦ World.ClosesExactly _ s.world s'.world) (hnone rfl rfl)
      fun ctx _ ↦ hnone rfl ?_
    refine (World.setEndpoint_channels (e.elim s.world s.world.referTo) ctx.endpoints n e).trans ?_
    cases e <;> rfl
  | grow i length =>
    exact withContext_cases (P := fun s' ↦ World.ClosesExactly _ s.world s'.world) (hnone rfl rfl)
      fun _ _ ↦ hnone rfl rfl
  | closeContext i =>
    cases hctx : s.context? i with
    | none =>
      have hclosed : s.closed (.closeContext i) = [] := by simp [closed, hctx]
      have hsame : s.perform (.closeContext i) = s := by simp [perform, withContext, hctx]
      rw [hsame]
      exact hnone hclosed rfl
    | some ctx =>
      have hclosed : s.closed (.closeContext i) = ctx.endpoints.reduceOption := by
        simp [closed, hctx]
      have hworld : (s.perform (.closeContext i)).world = s.world.closeEndpoints ctx.endpoints := by
        simp [perform, withContext, hctx, Context.close]
      rw [hclosed, hworld]
      simp only [List.reduceOption_mem_iff]
      exact .closeEndpoints s.world ctx.endpoints
  | dropContext i =>
    exact withContext_cases (P := fun s' ↦ World.ClosesExactly _ s.world s'.world) (hnone rfl rfl)
      fun ctx _ ↦ hnone rfl (World.dropEndpoints_channels s.world ctx.endpoints)

/-- An operation on one context leaves the others as they are. -/
theorem contexts_perform (s : Holding) (op : Operation) {j : Nat} (hj : j < s.contexts.length)
    (htarget : op.target? ≠ some j) : (s.perform op).contexts[j]? = s.contexts[j]? := by
  cases op with
  | addChannel | openEndpoint | shareEndpoint | forkEndpoint | referTo | closeEndpoint
  | dropEndpoint => rfl
  | addContext ctx => exact List.getElem?_append_left hj
  | forkContext i label =>
    exact withContext_cases (P := fun s' ↦ s'.contexts[j]? = s.contexts[j]?) rfl
      fun _ _ ↦ List.getElem?_append_left hj
  | forkEndpoints i | closeContext i =>
    exact withContext_cases (P := fun s' ↦ s'.contexts[j]? = s.contexts[j]?) rfl fun _ _ ↦ rfl
  | setEndpoint i | grow i | dropContext i =>
    have hne : i ≠ j := fun h ↦ htarget (congrArg some h)
    exact withContext_cases (P := fun s' ↦ s'.contexts[j]? = s.contexts[j]?) rfl
      fun _ _ ↦ List.getElem?_set_ne hne

/-! ## What every operation keeps -/

/-- The closings are right, endpoints count the references to them that there are, and forks spare
their channels. -/
structure Sound (s : Holding) : Prop where
  balanced : World.Balanced s.closings s.world
  counted : ∀ id, s.world.referenceCount id = s.references id
  forks : ∀ id ∈ s.forks, s.world.SparesChannel id

namespace Sound

theorem balanced_perform (h : Sound s) (hop : s.Admits op) :
    World.Balanced (s.perform op).closings (s.perform op).world := by
  cases op with
  | addChannel capacity => exact h.balanced.of_tables rfl rfl
  | openEndpoint device owned channel closesChannel =>
    exact h.balanced.newStream device owned Nat.one_ne_zero rfl
  | shareEndpoint stream channel closesChannel =>
    refine h.balanced.newEndpoint Nat.one_ne_zero fun sid hsid ↦ ?_
    obtain ⟨id, -, hid⟩ := hop.1 sid hsid
    obtain ⟨st, hst, hopen, -⟩ := h.balanced.exists_open hid
    exact ⟨st, hst, hopen⟩
  | forkEndpoint id => exact h.balanced.forkEndpoint id
  | referTo id => exact h.balanced.referTo id
  | closeEndpoint id => exact h.balanced.closeEndpoint id
  | dropEndpoint id => exact h.balanced.dropEndpoint id
  | addContext ctx => exact h.balanced.referToAll ctx.endpoints
  | forkContext i label =>
    refine withContext_cases (P := fun s ↦ World.Balanced s.closings s.world) h.balanced
      fun ctx _ ↦ h.balanced.forkEndpoints ctx.endpoints
  | forkEndpoints i =>
    exact withContext_cases (P := fun s ↦ World.Balanced s.closings s.world) h.balanced
      fun ctx _ ↦ h.balanced.forkEndpoints ctx.endpoints
  | setEndpoint i n e =>
    refine withContext_cases (P := fun s ↦ World.Balanced s.closings s.world) h.balanced
      fun ctx _ ↦ ?_
    have hreferred : World.Balanced s.closings (e.elim s.world s.world.referTo) := by
      cases e with
      | none => exact h.balanced
      | some id => exact h.balanced.referTo id
    change World.Balanced (s.closings ++ _)
      ((World.slot (World.grow ctx.endpoints (n + 1)) n).elim _ _)
    cases World.slot (World.grow ctx.endpoints (n + 1)) n with
    | none => exact (List.append_nil s.closings).symm ▸ hreferred
    | some old => exact hreferred.dropEndpoint old
  | grow i length =>
    exact withContext_cases (P := fun s ↦ World.Balanced s.closings s.world) h.balanced
      fun _ _ ↦ h.balanced
  | closeContext i =>
    exact withContext_cases (P := fun s ↦ World.Balanced s.closings s.world) h.balanced
      fun ctx _ ↦ .foldl (fun id h ↦ h.closeEndpoint id) h.balanced ctx.endpoints
  | dropContext i =>
    exact withContext_cases (P := fun s ↦ World.Balanced s.closings s.world) h.balanced
      fun ctx _ ↦ .foldl (fun id h ↦ h.dropEndpoint id) h.balanced ctx.endpoints

/-- What is referred to exists. -/
theorem referenceCount_pos (h : Sound s) {id : EndpointId} (hid : s.Refers id) :
    0 < s.world.referenceCount id := by
  rw [h.counted id]
  exact refers_iff.mp hid

theorem counted_perform (h : Sound s) (hop : s.Admits op) :
    ∀ id, (s.perform op).world.referenceCount id = (s.perform op).references id := by
  have hcounted : ∀ id, s.world.referenceCount id = referencesIn s.loose s.contexts id := h.counted
  have hnew : ∀ {w : World} {e : Endpoint}, w.endpoints = s.world.endpoints → e.references = 1 →
      ∀ id, (w.newEndpoint e).2.referenceCount id =
        referencesIn ((w.newEndpoint e).1 :: s.loose) s.contexts id := by
    intro w e hw he id
    rw [World.referenceCount_newEndpoint, World.referenceCount_of_endpoints hw, hcounted, he,
      World.newEndpoint_fst, referencesIn_cons]
    simp only [eq_comm]
  cases op with
  | addChannel capacity => exact h.counted
  | openEndpoint device owned channel closesChannel => exact hnew rfl rfl
  | shareEndpoint stream channel closesChannel => exact hnew rfl rfl
  | forkEndpoint id => exact hnew rfl rfl
  | referTo other =>
    intro id
    refine (World.referenceCount_referTo (h.referenceCount_pos hop) id).trans ?_
    rw [hcounted]
    exact (referencesIn_cons _ _ _ _).symm
  | closeEndpoint other =>
    exact fun id ↦ (World.referenceCount_closeEndpoint s.world other id).trans (hcounted id)
  | dropEndpoint other =>
    intro id
    refine (World.referenceCount_dropEndpoint s.world other id).trans ?_
    rw [hcounted]
    exact (referencesIn_erase _ _ _ hop).symm
  | addContext ctx =>
    intro id
    have hpos := fun id hid ↦ h.referenceCount_pos (hop id hid)
    refine (World.referenceCount_referToAll hpos id).trans ?_
    rw [hcounted]
    exact (referencesIn_snoc s.loose s.contexts id (some ctx)).symm
  | forkContext i label =>
    refine withContext_cases (P := fun s ↦ ∀ id, s.world.referenceCount id = s.references id)
      h.counted fun ctx _ id ↦ ?_
    refine (World.referenceCount_forkEndpoints s.world ctx.endpoints id).trans ?_
    rw [hcounted]
    let fork : Context := { ctx with label, endpoints := (s.world.forkEndpoints ctx.endpoints).1 }
    exact (referencesIn_snoc s.loose s.contexts id (some fork)).symm
  | forkEndpoints i =>
    refine withContext_cases (P := fun s ↦ ∀ id, s.world.referenceCount id = s.references id)
      h.counted fun ctx _ id ↦ ?_
    refine (World.referenceCount_forkEndpoints s.world ctx.endpoints id).trans ?_
    rw [hcounted, ← count_reduceOption]
    exact (referencesIn_append _ _ _ _).symm
  | setEndpoint i n e =>
    refine withContext_cases (P := fun s ↦ ∀ id, s.world.referenceCount id = s.references id)
      h.counted fun ctx hctx id ↦ ?_
    let filled : Context :=
      { ctx with endpoints := (World.grow ctx.endpoints (n + 1)).set n e }
    have hreferred : (e.elim s.world s.world.referTo).referenceCount id =
        s.world.referenceCount id + if e = some id then 1 else 0 := by
      cases e with
      | none => simp
      | some other =>
        have hpos := h.referenceCount_pos (hop other rfl)
        simpa using World.referenceCount_referTo hpos id
    refine counted_replace (h.counted id) hctx (some filled)
      ((World.referenceCount_setEndpoint _ ctx.endpoints n e id).trans ?_)
    have hfilled := count_set_grow ctx.endpoints n e id
    change _ = _ + ((World.grow ctx.endpoints (n + 1)).set n e).count (some id) -
      ctx.endpoints.count (some id)
    omega
  | grow i length =>
    refine withContext_cases (P := fun s ↦ ∀ id, s.world.referenceCount id = s.references id)
      h.counted fun ctx hctx id ↦ counted_replace (h.counted id) hctx (some (ctx.grow length)) ?_
    have hgrown : referencesFrom id (some (ctx.grow length)) = referencesFrom id (some ctx) :=
      count_grow ctx.endpoints length id
    rw [hgrown, Nat.add_sub_cancel]
    rfl
  | closeContext i =>
    exact withContext_cases (P := fun s ↦ ∀ id, s.world.referenceCount id = s.references id)
      h.counted fun ctx _ id ↦
        (World.referenceCount_closeEndpoints s.world ctx.endpoints id).trans (hcounted id)
  | dropContext i =>
    exact withContext_cases (P := fun s ↦ ∀ id, s.world.referenceCount id = s.references id)
      h.counted fun ctx hctx id ↦ counted_replace (h.counted id) hctx none
        (World.referenceCount_dropEndpoints s.world ctx.endpoints id)

theorem perform (h : Sound s) (hop : s.Admits op) : Sound (s.perform op) where
  balanced := h.balanced_perform hop
  counted := h.counted_perform hop
  forks id hid := by
    rcases forks_perform s op id hid with hid | hnew
    · exact (h.forks id hid).after (moves_perform World.Loses.moves s op)
    · exact hnew

/-- A stream is held exactly if an endpoint refers to it: nobody is left that holds one and is not
referred to itself. -/
theorem holds_iff (h : Sound s) {sid : StreamId} : s.Holds sid ↔ 0 < s.world.references sid := by
  constructor
  · rintro ⟨id, -, hid⟩
    obtain ⟨st, -, -, hpos, hcount⟩ := h.balanced.exists_open hid
    omega
  · intro hpos
    obtain ⟨e, he, hrefers⟩ := List.countP_pos_iff.mp hpos
    obtain ⟨id, hid⟩ := List.getElem?_of_mem he
    have hstream : e.stream = some sid := by simpa [World.refersTo] using hrefers
    have hget : s.world.endpoints.get? id = some e := hid
    have hreferences : e.references ≠ 0 := by
      intro hzero
      rw [h.balanced.bare id e hget hzero] at hstream
      cases hstream
    have hcount : s.world.referenceCount id = e.references := by
      simp [World.referenceCount, hget]
    refine ⟨id, refers_iff.mpr ?_, by simp [World.endpoint, hget, hstream]⟩
    rw [← h.counted, hcount]
    omega

/-- A stream that is owned is closed as long as nobody holds it. -/
theorem closed_iff (h : Sound s) {sid : StreamId} {st : Stream}
    (hst : s.world.streams.get? sid = some st) (howned : st.owned = true) :
    st.closed = true ↔ ¬s.Holds sid := by
  have hcounted := h.balanced.counted sid
  rw [World.holders, hst] at hcounted
  change st.holders = s.world.references sid at hcounted
  rw [h.balanced.closed sid st hst, h.holds_iff, howned, hcounted]
  simp

theorem count_closings (h : Sound s) {sid : StreamId} {st : Stream}
    (hst : s.world.streams.get? sid = some st) :
    s.closings.count sid = if st.closed then 1 else 0 := by
  rw [h.balanced.once, hst, Option.any_some]

end Sound

theorem Reached.sound (h : Reached s) : Sound s := by
  induction h with
  | start =>
    exact
      { balanced :=
          { bare := by simp [Table.get?, Table.empty]
            counted := fun _ ↦ rfl
            closed := by simp [Table.get?, Table.empty]
            once := fun _ ↦ rfl }
        counted := fun _ ↦ rfl
        forks := nofun }
  | step _ hop ih => exact ih.perform hop

/-- **Independent holders.**  Whatever a host has done with endpoints and contexts, an owned stream
is closed exactly if nobody holds it, and has then been closed once; a stream that is not owned has
never been closed; and no fork is marked for closing its channel.  Whatever the host does next, what
has been closed stays closed, and an owned stream is closed by it exactly if it is held before and
no longer after; a channel is closed by it exactly if an endpoint is closed that is marked for it
and still holds it; and a context other than the one that it is done to stays as it is. -/
theorem Reached.independent_holders (h : Reached s) :
    (∀ sid st, s.world.streams.get? sid = some st → st.owned = true →
      (st.closed = true ↔ ¬s.Holds sid) ∧ s.closings.count sid = if st.closed then 1 else 0) ∧
    (∀ sid st, s.world.streams.get? sid = some st → st.owned = false →
      st.closed = false ∧ s.closings.count sid = 0) ∧
    (∀ id ∈ s.forks, (s.world.endpoint id).closesChannel = false) ∧
    ∀ op, s.Admits op →
      s.closings <+: (s.perform op).closings ∧
      (∀ sid st, s.world.streams.get? sid = some st → st.owned = true →
        ((s.perform op).closings.count sid = s.closings.count sid + 1 ↔
          s.Holds sid ∧ ¬(s.perform op).Holds sid)) ∧
      (∀ channel line, s.world.channels.get? channel = some line →
        ∃ line', (s.perform op).world.channels.get? channel = some line' ∧
          (line'.channel.closed = true ↔ line.channel.closed = true ∨
            ∃ id ∈ s.closed op, (s.world.endpoint id).closesChannel = true ∧
              (s.world.endpoint id).channel = some channel)) ∧
      ∀ j < s.contexts.length, op.target? ≠ some j →
        (s.perform op).contexts[j]? = s.contexts[j]? := by
  have hs := h.sound
  refine ⟨fun sid st hst howned ↦ ⟨hs.closed_iff hst howned, hs.count_closings hst⟩,
    fun sid st hst howned ↦ ?spared, fun id hid ↦ ?forks, fun op hop ↦
      ⟨closings_perform s op, fun sid st hst howned ↦ ?once, closesExactly_perform s op,
        fun j hj htarget ↦ contexts_perform s op hj htarget⟩⟩
  case spared =>
    have hopen : st.closed = false := by rw [hs.balanced.closed sid st hst, howned]; rfl
    refine ⟨hopen, ?_⟩
    rw [hs.count_closings hst, hopen]
    rfl
  case forks =>
    obtain ⟨e, he, hspares⟩ := hs.forks id hid
    simpa [World.endpoint, he] using hspares
  case once =>
    have hs' := hs.perform hop
    obtain ⟨st', hst', hsame⟩ := moves_perform World.KeepsOwners.moves s op sid st hst
    have hheld : s.Holds sid ↔ ¬st.closed = true := by
      rw [hs.closed_iff hst howned, not_not]
    rw [hs.count_closings hst, hs'.count_closings hst', hheld,
      ← hs'.closed_iff hst' (hsame.trans howned)]
    cases st.closed <;> cases st'.closed <;> simp

/-- A context that is destroyed leaves the stream to its fork, which closes it in turn. -/
theorem Reached.independent_holders_fork :
    ∃ s : Holding, s.Reached ∧ s.closings = [] ∧ s.Holds 0 ∧
      (s.perform (.closeContext 1)).closings = [0] ∧ ¬(s.perform (.closeContext 1)).Holds 0 := by
  let ctx : Context := ⟨[], [], [], 0, 0, [some 0], default⟩
  have hopen := @Reached.step _ (.openEndpoint .terminal true none false) .start nofun
  have hadded := @Reached.step _ (.addContext ctx) hopen fun id hid ↦ by
    obtain rfl : id = 0 := by simpa [ctx] using hid
    exact .inl (List.mem_singleton.mpr rfl)
  have hforked := @Reached.step _ (.forkContext 0 [])
    (@Reached.step _ (.dropEndpoint 0) hadded (List.mem_singleton.mpr rfl)) trivial
  have hdropped := @Reached.step _ (.dropContext 0) hforked trivial
  obtain ⟨-, -, -, hnext⟩ := Reached.independent_holders hdropped
  obtain ⟨-, hmoment, -⟩ := hnext (.closeContext 1) trivial
  obtain ⟨hbefore, hafter⟩ := (hmoment 0 { device := .terminal, holders := 1 }
    (by decide +kernel) rfl).mp (by decide +kernel)
  exact ⟨_, hdropped, by decide +kernel, hbefore, by decide +kernel, hafter⟩

end Holding

end Conduit
