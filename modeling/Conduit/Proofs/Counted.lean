import Conduit.Proofs.Calm

/-!
# Counted Streams

A stream counts its holders.  In a sound state it counts at least the endpoints that refer to it, so
that letting go of one of several endpoints never closes the stream under the others.  The module
shows how making an endpoint and clearing one changes both numbers.
-/

namespace Conduit

/-! ## Counting rows -/

namespace Table

variable {α : Type}

/-- The number of rows with a property. -/
def count (t : Table α) (p : α → Bool) : Nat := t.rows.countP p

theorem count_push (t : Table α) (a : α) (p : α → Bool) :
    (t.push a).count p = t.count p + if p a then 1 else 0 := by
  simp [count, push, List.countP_append, List.countP_singleton]

/-- Changing a row takes its old value out of the count and its new one in. -/
theorem count_modify {t : Table α} {id : Nat} {a : α} (f : α → α) (p : α → Bool)
    (h : t.get? id = some a) :
    (t.modify id f).count p + (if p a then 1 else 0) =
      t.count p + if p (f a) then 1 else 0 := by
  obtain ⟨rows⟩ := t
  change rows[id]? = some a at h
  change (rows.modify id f).countP p + _ = rows.countP p + _
  induction rows generalizing id with
  | nil => cases h
  | cons b rest ih =>
    cases id with
    | zero =>
      rw [List.getElem?_cons_zero, Option.some.injEq] at h
      subst h
      rw [List.modify_zero_cons, List.countP_cons, List.countP_cons]
      omega
    | succ id =>
      rw [List.getElem?_cons_succ] at h
      rw [List.modify_succ_cons, List.countP_cons, List.countP_cons]
      have hrest := ih h
      omega

theorem modify_of_get?_none {t : Table α} {id : Nat} (f : α → α) (h : t.get? id = none) :
    t.modify id f = t := by
  have hle : t.rows.length ≤ id := List.getElem?_eq_none_iff.mp h
  rw [modify, List.modify_eq_self hle]

/-- Changing a row in other respects does not matter to the count. -/
theorem count_modify_same (t : Table α) (id : Nat) {f : α → α} {p : α → Bool}
    (hf : ∀ a, p (f a) = p a) : (t.modify id f).count p = t.count p := by
  rcases h : t.get? id with _ | a
  · rw [modify_of_get?_none f h]
  · have hcount := count_modify f p h
    rw [hf] at hcount
    omega

end Table

namespace World

variable {w : World}

/-- Whether an endpoint refers to a stream. -/
def refersTo (sid : StreamId) (e : Endpoint) : Bool := e.stream == some sid

/-- The number of endpoints that refer to a stream. -/
def references (w : World) (sid : StreamId) : Nat := w.endpoints.count (refersTo sid)

/-- The number of holders that a stream counts. -/
def holders (w : World) (sid : StreamId) : Nat := ((w.streams.get? sid).map Stream.holders).getD 0

/-- Every stream counts at least the endpoints that refer to it. -/
def Counted (w : World) : Prop := ∀ sid, w.references sid ≤ w.holders sid

theorem references_pos {id : EndpointId} {e : Endpoint} {sid : StreamId}
    (he : w.endpoints.get? id = some e) (hsid : e.stream = some sid) : 0 < w.references sid := by
  refine List.countP_pos_iff.mpr ⟨e, List.mem_of_getElem? he, ?_⟩
  simp [refersTo, hsid]

/-- A stream that an endpoint refers to exists. -/
theorem Counted.exists_stream (hw : w.Counted) {id : EndpointId} {e : Endpoint} {sid : StreamId}
    (he : w.endpoints.get? id = some e) (hsid : e.stream = some sid) :
    ∃ s, w.streams.get? sid = some s ∧ w.references sid ≤ s.holders := by
  have hpos := references_pos he hsid
  have hle := hw sid
  rcases hs : w.streams.get? sid with _ | s
  · simp [holders, hs] at hle
    omega
  · exact ⟨s, rfl, by simpa [holders, hs] using hle⟩

theorem Counted.isSome_stream (hw : w.Counted) {id : EndpointId} {sid : StreamId}
    (hsid : (w.endpoint id).stream = some sid) : (w.streams.get? sid).isSome := by
  rcases he : w.endpoints.get? id with _ | e
  · simp [World.endpoint, he] at hsid
  · rw [World.endpoint, he] at hsid
    obtain ⟨s, hs, -⟩ := hw.exists_stream he hsid
    rw [hs]
    rfl

/-! ## Holding and letting go -/

theorem holders_hold (w : World) (sid other : StreamId) :
    (w.holdStream (some sid)).holders other =
      w.holders other + if sid = other ∧ (w.streams.get? sid).isSome then 1 else 0 := by
  have hget : (w.holdStream (some sid)).streams.get? other =
      if sid = other then (w.streams.get? other).map Stream.hold else w.streams.get? other :=
    Table.get?_modify _ _ _ _
  rw [holders, hget, holders]
  by_cases h : sid = other
  · subst h
    rcases w.streams.get? sid with _ | s <;> simp [Stream.hold]
  · simp [h]

theorem holders_release (w : World) (sid other : StreamId) :
    (w.releaseStream (some sid)).holders other =
      w.holders other - if sid = other then 1 else 0 := by
  have hget : (w.releaseStream (some sid)).streams.get? other =
      if sid = other then (w.streams.get? other).map Stream.release else w.streams.get? other :=
    Table.get?_modify _ _ _ _
  rw [holders, hget, holders]
  by_cases h : sid = other
  · subst h
    rcases w.streams.get? sid with _ | s
    · simp
    · simp only [Option.map_some, Option.getD_some, Stream.release, if_true]
      split
      · simp only
        omega
      · rfl
  · simp [h]

/-! ## Making endpoints -/

@[simp] theorem newEndpoint_fst (w : World) (e : Endpoint) :
    (w.newEndpoint e).1 = w.endpoints.size := by
  unfold World.newEndpoint
  cases e.stream <;> rfl

@[simp] theorem newEndpoint_endpoints (w : World) (e : Endpoint) :
    (w.newEndpoint e).2.endpoints = w.endpoints.push e := by
  unfold World.newEndpoint
  cases e.stream <;> rfl

@[simp] theorem newEndpoint_channels (w : World) (e : Endpoint) :
    (w.newEndpoint e).2.channels = w.channels := by
  unfold World.newEndpoint
  cases e.stream <;> rfl

theorem newEndpoint_exists (w : World) (e : Endpoint) (sid : StreamId) :
    ((w.newEndpoint e).2.streams.get? sid).isSome = (w.streams.get? sid).isSome := by
  change ((w.holdStream e.stream).streams.get? sid).isSome = _
  cases e.stream with
  | none => rfl
  | some other =>
    change ((w.streams.modify other Stream.hold).get? sid).isSome = _
    rw [Table.get?_modify]
    split <;> simp

theorem references_newEndpoint (w : World) (e : Endpoint) (sid : StreamId) :
    (w.newEndpoint e).2.references sid = w.references sid + if refersTo sid e then 1 else 0 := by
  rw [references, newEndpoint_endpoints, Table.count_push, references]

theorem holders_newEndpoint {e : Endpoint}
    (he : ∀ sid, e.stream = some sid → (w.streams.get? sid).isSome) (sid : StreamId) :
    (w.newEndpoint e).2.holders sid = w.holders sid + if refersTo sid e then 1 else 0 := by
  change (w.holdStream e.stream).holders sid = _
  rcases hstream : e.stream with _ | other
  · simp [refersTo, hstream, holdStream]
  · rw [holders_hold]
    have hexists := he other hstream
    by_cases h : other = sid
    · subst h
      simp [refersTo, hstream, hexists]
    · simp [refersTo, hstream, h]

/-- A new endpoint is counted by its stream. -/
theorem Counted.newEndpoint (hw : w.Counted) {e : Endpoint}
    (he : ∀ sid, e.stream = some sid → (w.streams.get? sid).isSome) :
    (w.newEndpoint e).2.Counted := by
  intro sid
  rw [references_newEndpoint, holders_newEndpoint he]
  exact Nat.add_le_add_right (hw sid) _

/-! ## Clearing endpoints -/

/-- The world with an endpoint changed after it has let go of its stream. -/
def cleared (w : World) (id : EndpointId) (f : Endpoint → Endpoint) : World :=
  { w.releaseStream (w.endpoint id).stream with endpoints := w.endpoints.modify id f }

theorem references_cleared (w : World) (id : EndpointId) {f : Endpoint → Endpoint}
    (hf : ∀ e, (f e).stream = none) (sid : StreamId) :
    (w.cleared id f).references sid + (if refersTo sid (w.endpoint id) then 1 else 0) =
      w.references sid := by
  rcases he : w.endpoints.get? id with _ | e
  · have hendpoint : w.endpoint id = {} := by simp [World.endpoint, he]
    rw [hendpoint, references, cleared, Table.modify_of_get?_none f he]
    rfl
  · have hendpoint : w.endpoint id = e := by simp [World.endpoint, he]
    have hcount := Table.count_modify f (refersTo sid) he
    have hnone : refersTo sid (f e) = false := by simp [refersTo, hf]
    rw [hnone] at hcount
    rw [hendpoint]
    exact hcount

theorem holders_cleared (w : World) (id : EndpointId) (f : Endpoint → Endpoint) (sid : StreamId) :
    (w.cleared id f).holders sid =
      w.holders sid - if refersTo sid (w.endpoint id) then 1 else 0 := by
  change (w.releaseStream (w.endpoint id).stream).holders sid = _
  rcases hstream : (w.endpoint id).stream with _ | other
  · simp [refersTo, hstream, releaseStream]
  · rw [holders_release]
    by_cases h : other = sid <;> simp [refersTo, hstream, h]

/-- An endpoint that is cleared is no longer counted, and its stream counts one holder less. -/
theorem Counted.clear (hw : w.Counted) (id : EndpointId) {f : Endpoint → Endpoint}
    (hf : ∀ e, (f e).stream = none) : (w.cleared id f).Counted := by
  intro sid
  have hsound := hw sid
  have hreferences := references_cleared w id hf sid
  rw [holders_cleared]
  omega

/-- A stream with two holders stays as open as it was when one of them leaves. -/
theorem closed_release {s : Stream} (h : 2 ≤ s.holders) : s.release.closed = s.closed := by
  rw [Stream.release, if_neg (by omega)]

end World

end Conduit
