import Conduit.Holding
import Conduit.Proofs.Counted

/-!
# Closing with the Last Holder

The books of a state say which streams have been closed so far.  They are right if every stream
counts exactly the endpoints that refer to it, an owned stream is closed as soon as the count is
zero and not before, and each closed stream was closed once.  Making endpoints, clearing them and
counting their references keeps the books right.
-/

namespace Conduit

namespace World

variable {w w' : World} {closings : List StreamId}

/-! ## What closing and dropping an endpoint change -/

/-- An endpoint that has let go of its stream and its channel. -/
def emptied (e : Endpoint) : Endpoint := { e with stream := none, channel := none }

theorem closeEndpoint_endpoints (w : World) (id : EndpointId) :
    (w.closeEndpoint id).endpoints = w.endpoints.modify id emptied := by
  unfold World.closeEndpoint
  dsimp only
  cases (w.endpoint id).stream <;> split <;> rfl

theorem closeEndpoint_streams (w : World) (id : EndpointId) :
    (w.closeEndpoint id).streams = (w.releaseStream (w.endpoint id).stream).streams := by
  unfold World.closeEndpoint
  dsimp only
  split <;> rfl

theorem dropEndpoint_of_le {id : EndpointId} (h : (w.endpoint id).references ≤ 1) :
    w.dropEndpoint id = w.cleared id fun e ↦
      { e with stream := none, channel := none, references := 0 } := by
  unfold World.dropEndpoint cleared
  dsimp only
  rw [if_pos h]
  cases (w.endpoint id).stream <;> rfl

theorem dropEndpoint_of_lt {id : EndpointId} (h : 1 < (w.endpoint id).references) :
    w.dropEndpoint id =
      { w with endpoints := w.endpoints.modify id fun e ↦
          { e with references := e.references - 1 } } :=
  if_neg (by omega)

/-! ## The last holder -/

/-- An open stream that is released is closed if it is owned and had no other holder. -/
theorem closed_release_of_open {s : Stream} (h : s.closed = false) :
    s.release.closed = (s.owned && s.holders ≤ 1) := by
  unfold Stream.release
  split
  · next hle => simp [h, hle]
  · next hlt => simp [h, hlt]

theorem unheld_release (s : Stream) :
    (s.release.owned && s.release.holders == 0) = (s.owned && s.holders ≤ 1) := by
  unfold Stream.release
  split
  · next hle => simp [hle]
  · next hlt =>
    have hne : (s.holders - 1 == 0) = false := by simp; omega
    simp [hlt, hne]

/-! ## Balanced books -/

/-- The closings are what has happened to the streams of the state. -/
structure Balanced (closings : List StreamId) (w : World) : Prop where
  /-- An endpoint that nobody refers to any more has let go of its stream. -/
  bare : ∀ id e, w.endpoints.get? id = some e → e.references = 0 → e.stream = none
  /-- A stream counts the endpoints that refer to it. -/
  counted : ∀ sid, w.holders sid = w.references sid
  /-- An owned stream is closed as long as no endpoint holds it, and others stay open. -/
  closed : ∀ sid s, w.streams.get? sid = some s → s.closed = (s.owned && s.holders == 0)
  /-- Closed streams have been closed once. -/
  once : ∀ sid, closings.count sid = if (w.streams.get? sid).any Stream.closed then 1 else 0

namespace Balanced

theorem of_tables (h : Balanced closings w) (hendpoints : w'.endpoints = w.endpoints)
    (hstreams : w'.streams = w.streams) : Balanced closings w' where
  bare := by rw [hendpoints]; exact h.bare
  counted sid := by
    have hcounted := h.counted sid
    rwa [holders, references, ← hstreams, ← hendpoints] at hcounted
  closed := by rw [hstreams]; exact h.closed
  once := by rw [hstreams]; exact h.once

/-- A stream that an endpoint holds exists and is open. -/
theorem exists_open (h : Balanced closings w) {id : EndpointId} {sid : StreamId}
    (hsid : (w.endpoint id).stream = some sid) :
    ∃ s, w.streams.get? sid = some s ∧ s.closed = false ∧ 0 < s.holders ∧
      s.holders = w.references sid := by
  rcases he : w.endpoints.get? id with _ | e
  · simp [World.endpoint, he] at hsid
  · have hstream : e.stream = some sid := by simpa [World.endpoint, he] using hsid
    have hpos := references_pos he hstream
    have hcounted := h.counted sid
    rcases hs : w.streams.get? sid with _ | s
    · simp [holders, hs] at hcounted
      omega
    · have hholders : s.holders = w.references sid := by simpa [holders, hs] using hcounted
      refine ⟨s, rfl, ?_, by omega, hholders⟩
      rw [h.closed sid s hs]
      have hne : (s.holders == 0) = false := by simp; omega
      rw [hne, Bool.and_false]

/-- With a new endpoint the books stay right, and they become right about the stream that it holds,
which must be open and need not have been held before. -/
theorem of_newEndpoint {e : Endpoint} (hone : e.references ≠ 0)
    (hopen : ∀ sid, e.stream = some sid → ∃ s, w.streams.get? sid = some s ∧ s.closed = false)
    (hbare : ∀ id e, w.endpoints.get? id = some e → e.references = 0 → e.stream = none)
    (hcounted : ∀ sid, w.holders sid = w.references sid)
    (hclosed : ∀ sid s, w.streams.get? sid = some s → e.stream ≠ some sid →
      s.closed = (s.owned && s.holders == 0))
    (honce : ∀ sid, closings.count sid = if (w.streams.get? sid).any Stream.closed then 1 else 0) :
    Balanced closings (w.newEndpoint e).2 := by
  have hexists : ∀ sid, e.stream = some sid → (w.streams.get? sid).isSome := by
    intro sid hsid
    obtain ⟨s, hs, -⟩ := hopen sid hsid
    simp [hs]
  have hstreams : ∀ sid, (w.newEndpoint e).2.streams.get? sid =
      if e.stream = some sid then (w.streams.get? sid).map Stream.hold else w.streams.get? sid := by
    intro sid
    change (w.holdStream e.stream).streams.get? sid = _
    cases e.stream with
    | none => rfl
    | some other =>
      change (w.streams.modify other Stream.hold).get? sid = _
      rw [Table.get?_modify]
      simp
  exact
    { bare := fun id e' he' hreferences ↦ by
        rw [newEndpoint_endpoints] at he'
        rcases Table.get?_push_cases he' with he' | ⟨-, rfl⟩
        · exact hbare id e' he' hreferences
        · exact absurd hreferences hone
      counted := fun sid ↦ by
        rw [holders_newEndpoint hexists, references_newEndpoint, hcounted]
      closed := fun sid s hs ↦ by
        rw [hstreams] at hs
        split at hs
        · next hsid =>
          obtain ⟨s₀, hs₀, hstays⟩ := hopen sid hsid
          rw [hs₀, Option.map_some, Option.some.injEq] at hs
          subst hs
          simp [Stream.hold, hstays]
        · next hsid => exact hclosed sid s hs hsid
      once := fun sid ↦ by
        rw [honce sid, hstreams]
        by_cases hsid : e.stream = some sid
        · rw [if_pos hsid]
          cases w.streams.get? sid <;> rfl
        · rw [if_neg hsid] }

/-- A new endpoint may hold any stream that is open. -/
theorem newEndpoint (h : Balanced closings w) {e : Endpoint} (hone : e.references ≠ 0)
    (hopen : ∀ sid, e.stream = some sid → ∃ s, w.streams.get? sid = some s ∧ s.closed = false) :
    Balanced closings (w.newEndpoint e).2 :=
  of_newEndpoint hone hopen h.bare h.counted (fun sid s hs _ ↦ h.closed sid s hs) h.once

/-- A new stream is held by the endpoint that is made for it. -/
theorem newStream (h : Balanced closings w) (device : Device) (owned : Bool) {e : Endpoint}
    (hone : e.references ≠ 0) (he : e.stream = some w.streams.size) :
    Balanced closings ((w.newStream device owned).2.newEndpoint e).2 := by
  have hstreams : ∀ sid, (w.newStream device owned).2.streams.get? sid =
      if sid = w.streams.size then some { device, owned } else w.streams.get? sid := by
    intro sid
    change (w.streams.push { device, owned }).get? sid = _
    rcases Nat.lt_trichotomy sid w.streams.size with hlt | heq | hgt
    · rw [Table.get?_push_of_lt hlt, if_neg (Nat.ne_of_lt hlt)]
    · rw [heq, Table.get?_push_size, if_pos rfl]
    · rw [if_neg (Nat.ne_of_gt hgt), Table.get?_eq_none_of_le (by rw [Table.size_push]; omega),
        Table.get?_eq_none_of_le (by omega)]
  have hnone : w.streams.get? w.streams.size = none := Table.get?_eq_none_of_le (Nat.le_refl _)
  refine of_newEndpoint hone (fun sid hsid ↦ ?opened) h.bare (fun sid ↦ ?counted)
    (fun sid s hs hsid ↦ ?closed) fun sid ↦ ?once
  case opened =>
    obtain rfl : w.streams.size = sid := Option.some.inj (he.symm.trans hsid)
    exact ⟨_, (hstreams _).trans (if_pos rfl), rfl⟩
  case counted =>
    have hcounted := h.counted sid
    change w.holders sid = w.references sid at hcounted
    change ((w.newStream device owned).2.holders sid) = w.references sid
    rw [holders, hstreams]
    split
    · next heq =>
      rw [← hcounted, holders, heq, hnone]
      rfl
    · exact hcounted
  case closed =>
    have hne : sid ≠ w.streams.size := fun heq ↦ hsid (heq ▸ he)
    rw [hstreams, if_neg hne] at hs
    exact h.closed sid s hs
  case once =>
    rw [h.once sid, hstreams]
    by_cases heq : sid = w.streams.size
    · rw [if_pos heq, heq, hnone]
      rfl
    · rw [if_neg heq]

/-! ## Letting go -/

/-- Clearing an endpoint closes its stream if no other endpoint holds it. -/
theorem cleared (h : Balanced closings w) (id : EndpointId) {f : Endpoint → Endpoint}
    (hf : ∀ e, (f e).stream = none) :
    Balanced (closings ++ (w.lastHeld? id).toList) (w.cleared id f) := by
  have hbare : ∀ other e', (w.cleared id f).endpoints.get? other = some e' → e'.references = 0 →
      e'.stream = none := by
    intro other e' he' hreferences
    change (w.endpoints.modify id f).get? other = some e' at he'
    rw [Table.get?_modify] at he'
    split at he'
    · obtain ⟨e, -, rfl⟩ := Option.map_eq_some_iff.mp he'
      exact hf e
    · exact h.bare other e' he' hreferences
  have hcounted : ∀ sid, (w.cleared id f).holders sid = (w.cleared id f).references sid := by
    intro sid
    have hreferences := references_cleared w id hf sid
    have hcounted := h.counted sid
    rw [holders_cleared]
    omega
  rcases hstream : (w.endpoint id).stream with _ | sid
  · have hnone : w.lastHeld? id = none := by simp [lastHeld?, hstream]
    have hsame : (w.cleared id f).streams = w.streams := by
      simp [World.cleared, hstream, releaseStream]
    rw [hnone, Option.toList_none, List.append_nil]
    exact ⟨hbare, hcounted, by rw [hsame]; exact h.closed, by rw [hsame]; exact h.once⟩
  · obtain ⟨s, hs, hopen, hpos, -⟩ := h.exists_open hstream
    have hstreams : ∀ other, (w.cleared id f).streams.get? other =
        if sid = other then some s.release else w.streams.get? other := by
      intro other
      have hrelease : (w.cleared id f).streams = w.streams.modify sid Stream.release := by
        simp [World.cleared, hstream, releaseStream]
      rw [hrelease, Table.get?_modify]
      split
      · next heq => rw [← heq, hs, Option.map_some]
      · rfl
    have hlast : w.lastHeld? id = if s.owned && s.holders ≤ 1 then some sid else none := by
      rw [lastHeld?, hstream, Option.filter_some]
      simp [hs]
    have hreleased := closed_release_of_open hopen
    refine ⟨hbare, hcounted, fun other s' hs' ↦ ?closed, fun other ↦ ?once⟩
    case closed =>
      rw [hstreams] at hs'
      split at hs'
      · exact Option.some.inj hs' ▸ hreleased.trans (unheld_release s).symm
      · exact h.closed other s' hs'
    case once =>
      have honce := h.once other
      rw [List.count_append, hstreams, hlast]
      by_cases heq : sid = other
      · subst heq
        rw [hs, Option.any_some, hopen] at honce
        rw [honce, if_pos rfl, Option.any_some, hreleased]
        cases s.owned && decide (s.holders ≤ 1) <;> simp
      · rw [if_neg heq, honce]
        cases s.owned && decide (s.holders ≤ 1) <;> simp [heq]

/-- Changing how many references an endpoint counts does not matter as long as it counts one. -/
theorem touched (h : Balanced closings w) (id : EndpointId) {f : Endpoint → Endpoint}
    (hstream : ∀ e, (f e).stream = e.stream)
    (hone : ∀ e, w.endpoints.get? id = some e → (f e).references ≠ 0) :
    Balanced closings { w with endpoints := w.endpoints.modify id f } where
  bare other e' he' hreferences := by
    dsimp only at he'
    rw [Table.get?_modify] at he'
    split at he'
    · next heq =>
      subst heq
      obtain ⟨e, he, rfl⟩ := Option.map_eq_some_iff.mp he'
      exact absurd hreferences (hone e he)
    · exact h.bare other e' he' hreferences
  counted sid := by
    have hsame : (w.endpoints.modify id f).count (refersTo sid) = w.references sid :=
      Table.count_modify_same _ _ fun e ↦ by rw [refersTo, hstream, refersTo]
    exact (h.counted sid).trans hsame.symm
  closed := h.closed
  once := h.once

theorem referTo (h : Balanced closings w) (id : EndpointId) : Balanced closings (w.referTo id) :=
  h.touched id (fun _ ↦ rfl) fun _ _ ↦ Nat.succ_ne_zero _

theorem closeEndpoint (h : Balanced closings w) (id : EndpointId) :
    Balanced (closings ++ (w.lastHeld? id).toList) (w.closeEndpoint id) := by
  have hcleared := h.cleared id (f := emptied) fun _ ↦ rfl
  exact hcleared.of_tables (closeEndpoint_endpoints w id) (closeEndpoint_streams w id)

theorem dropEndpoint (h : Balanced closings w) (id : EndpointId) :
    Balanced (closings ++ (w.dropCloses? id).toList) (w.dropEndpoint id) := by
  by_cases hle : (w.endpoint id).references ≤ 1
  · rw [dropEndpoint_of_le hle, dropCloses?, if_pos hle]
    exact h.cleared id fun _ ↦ rfl
  · rw [dropEndpoint_of_lt (by omega), dropCloses?, if_neg hle, Option.toList_none,
      List.append_nil]
    refine h.touched id (fun _ ↦ rfl) fun e he ↦ ?_
    have hendpoint : w.endpoint id = e := by simp [World.endpoint, he]
    rw [hendpoint] at hle
    dsimp only
    omega

theorem forkEndpoint (h : Balanced closings w) (id : EndpointId) :
    Balanced closings (w.forkEndpoint id).2 := by
  refine h.newEndpoint Nat.one_ne_zero fun sid hsid ↦ ?_
  obtain ⟨s, hs, hopen, -⟩ := h.exists_open hsid
  exact ⟨s, hs, hopen⟩

/-! ## Vectors -/

theorem forkEndpoints (h : Balanced closings w) (endpoints : List (Option EndpointId)) :
    Balanced closings (w.forkEndpoints endpoints).2 := by
  induction endpoints generalizing w with
  | nil => exact h
  | cons e rest ih =>
    cases e with
    | none => exact ih h
    | some id => exact ih (h.forkEndpoint id)

theorem referToAll (h : Balanced closings w) (endpoints : List (Option EndpointId)) :
    Balanced closings (w.referToAll endpoints) := by
  induction endpoints generalizing w with
  | nil => exact h
  | cons e rest ih =>
    cases e with
    | none => exact ih h
    | some id => exact ih (h.referTo id)

/-- A step that keeps the books right may be taken with the endpoints of a vector in turn. -/
theorem foldl {step : World → EndpointId → World} {closes? : World → EndpointId → Option StreamId}
    (hstep : ∀ {closings w} id, Balanced closings w →
      Balanced (closings ++ (closes? w id).toList) (step w id))
    (h : Balanced closings w) (endpoints : List (Option EndpointId)) :
    Balanced (closings ++ closingsOf step closes? w endpoints)
      (endpoints.foldl (fun w e ↦ e.elim w (step w)) w) := by
  induction endpoints generalizing w closings with
  | nil => exact (List.append_nil closings).symm ▸ h
  | cons e rest ih =>
    cases e with
    | none => exact ih h
    | some id =>
      rw [closingsOf, ← List.append_assoc]
      exact ih (hstep id h)

end Balanced

end World

end Conduit
