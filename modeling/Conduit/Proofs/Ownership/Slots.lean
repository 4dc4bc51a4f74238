import Conduit.Proofs.Holding.Streams
import Conduit.Proofs.Ownership

/-!
# Endpoints at their Positions

A vector of endpoints has one endpoint at each position, or none.  In a fork of a vector stand new
endpoints, which refer to what the endpoints at the same positions refer to.  Filling a place lets
go of the endpoint that stood there; as long as no endpoint stands at two positions, the others stay
as they are, and so do the streams that they refer to.
-/

namespace Conduit

/-- An endpoint for the stream and the channel of another one, which closes no channel. -/
def Endpoint.forked (e : Endpoint) : Endpoint := { stream := e.stream, channel := e.channel }

namespace World

variable {w w' : World} {id other : EndpointId} {e : Endpoint} {sid : StreamId}

/-- The stream exists and has not been closed. -/
def Open (w : World) (sid : StreamId) : Prop := ∃ s, w.streams.get? sid = some s ∧ s.closed = false

theorem endpoint_eq (he : w.endpoints.get? id = some e) : w.endpoint id = e := by
  simp [endpoint, he]

/-- Endpoints that exist stand in a steady state as they did. -/
theorem Steady.endpoint? (h : Steady w w') {ctx : Context}
    (hexist : ∀ id, some id ∈ ctx.endpoints → id < w.endpoints.size) (n : Nat) :
    ctx.endpoint? w' n = ctx.endpoint? w n := by
  rw [Context.endpoint?, Context.endpoint?]
  rcases hid : slot ctx.endpoints n with _ | id
  · rfl
  · obtain ⟨e, he⟩ : ∃ e, w.endpoints.get? id = some e :=
      Table.exists_get?_of_lt (hexist id (List.mem_of_getElem? (Option.join_eq_some_iff.mp hid)))
    rw [Option.map_some, Option.map_some, endpoint_eq he, endpoint_eq (h.get?_endpoints he)]

/-! ## Dropping one of several endpoints -/

theorem get?_dropEndpoint (w : World) (h : id ≠ other) :
    (w.dropEndpoint id).endpoints.get? other = w.endpoints.get? other := by
  rcases Nat.lt_or_ge 1 (w.endpoint id).references with hlt | hle
  · rw [dropEndpoint_of_lt hlt]
    exact (Table.get?_modify _ _ _ _).trans (if_neg h)
  · rw [dropEndpoint_of_le hle]
    exact (Table.get?_modify _ _ _ _).trans (if_neg h)

/-- A stream that another endpoint refers to stays open when an endpoint is dropped. -/
theorem Open.dropEndpoint (h : w.Open sid) (hw : w.Counted) (hne : id ≠ other)
    (he : w.endpoints.get? other = some e) (hsid : e.stream = some sid) :
    (w.dropEndpoint id).Open sid := by
  have hother := (w.get?_dropEndpoint hne).trans he
  rcases Nat.lt_or_ge 1 (w.endpoint id).references with hlt | hle
  · rw [dropEndpoint_of_lt hlt]
    exact h
  · rw [dropEndpoint_of_le hle] at hother ⊢
    obtain ⟨s, hs, hclosed⟩ := h
    change ∃ s', (w.releaseStream (w.endpoint id).stream).streams.get? sid = some s' ∧ _
    rcases hstream : (w.endpoint id).stream with _ | released
    · exact ⟨s, hs, hclosed⟩
    · change ∃ s', (w.streams.modify released Stream.release).get? sid = some s' ∧ _
      rw [Table.get?_modify, hs]
      by_cases hsame : released = sid
      · -- both endpoints are counted, so the stream has a holder left
        have hcount := references_cleared w id (f := fun e ↦
          { e with stream := none, channel := none, references := 0 }) (fun _ ↦ rfl) sid
        have hleft := references_pos hother hsid
        obtain ⟨s', hs', hholders⟩ := hw.exists_stream he hsid
        obtain rfl : s' = s := Option.some.inj (hs'.symm.trans hs)
        rw [if_pos (by simp [refersTo, hstream, hsame])] at hcount
        exact ⟨s'.release, by simp [hsame], (closed_release (by omega)).trans hclosed⟩
      · exact ⟨s, by simp [hsame], hclosed⟩

theorem Open.steady (h : w.Open sid) (hw : w.Counted) (hsteady : Steady w w')
    (he : w.endpoints.get? id = some e) (hsid : e.stream = some sid) : w'.Open sid := by
  obtain ⟨s, hs, hclosed⟩ := h
  obtain ⟨s', hs', hsame⟩ := hsteady.streams hw sid s hs (references_pos he hsid)
  exact ⟨s', hs', hsame.trans hclosed⟩

theorem Open.newEndpoint (h : w.Open sid) (e : Endpoint) : (w.newEndpoint e).2.Open sid := by
  obtain ⟨s, hs, hclosed⟩ := h
  change (w.holdStream e.stream).Open sid
  rcases e.stream with _ | held
  · exact ⟨s, hs, hclosed⟩
  · change ∃ s', (w.streams.modify held Stream.hold).get? sid = some s' ∧ _
    rw [Table.get?_modify, hs]
    by_cases hsame : held = sid
    · exact ⟨s.hold, by simp [hsame], hclosed⟩
    · exact ⟨s, by simp [hsame], hclosed⟩

/-! ## Vectors whose endpoints stand at one position each -/

/-- No endpoint stands at two positions of the vector. -/
def Apart (endpoints : List (Option EndpointId)) : Prop :=
  ∀ m n id, slot endpoints m = some id → slot endpoints n = some id → m = n

theorem mem_of_slot {endpoints : List (Option EndpointId)} {n : Nat}
    (h : slot endpoints n = some id) : some id ∈ endpoints :=
  List.mem_of_getElem? (Option.join_eq_some_iff.mp h)

theorem slot_cons_zero (e : Option EndpointId) (rest : List (Option EndpointId)) :
    slot (e :: rest) 0 = e := by
  simp [slot]

theorem slot_cons_succ (e : Option EndpointId) (rest : List (Option EndpointId)) (n : Nat) :
    slot (e :: rest) (n + 1) = slot rest n := by
  simp [slot]

theorem Apart.cons_none {rest : List (Option EndpointId)} (h : Apart rest) :
    Apart (none :: rest) := by
  intro m n id hm hn
  rcases m with _ | m
  · rw [slot_cons_zero] at hm
    cases hm
  · rcases n with _ | n
    · rw [slot_cons_zero] at hn
      cases hn
    · rw [slot_cons_succ] at hm hn
      rw [h m n id hm hn]

theorem Apart.cons_some {rest : List (Option EndpointId)} (h : Apart rest)
    (hid : some id ∉ rest) : Apart (some id :: rest) := by
  intro m n found hm hn
  rcases m with _ | m <;> rcases n with _ | n
  · rfl
  · rw [slot_cons_zero] at hm
    rw [slot_cons_succ] at hn
    exact absurd (Option.some.inj hm ▸ mem_of_slot hn) hid
  · rw [slot_cons_succ] at hm
    rw [slot_cons_zero] at hn
    exact absurd (Option.some.inj hn ▸ mem_of_slot hm) hid
  · rw [slot_cons_succ] at hm hn
    rw [h m n found hm hn]

theorem Apart.setEndpoint {endpoints : List (Option EndpointId)} (h : Apart endpoints)
    (hid : some id ∉ endpoints) (w : World) (n : Nat) :
    Apart (w.setEndpoint endpoints n (some id)).1 := by
  intro l m found hl hm
  rw [slot_setEndpoint] at hl hm
  split at hl <;> split at hm
  case isTrue.isTrue hl' hm' => rw [hl', hm']
  case isTrue.isFalse => exact absurd (Option.some.inj hl ▸ mem_of_slot hm) hid
  case isFalse.isTrue => exact absurd (Option.some.inj hm ▸ mem_of_slot hl) hid
  case isFalse.isFalse => exact h l m found hl hm

/-- Filling a place lets go of the endpoint that stood there, and of no other one. -/
theorem get?_setEndpoint (w : World) {endpoints : List (Option EndpointId)} {n : Nat}
    (h : slot endpoints n ≠ some other) (e : Option EndpointId) :
    (w.setEndpoint endpoints n e).2.endpoints.get? other = w.endpoints.get? other := by
  change ((slot (grow endpoints (n + 1)) n).elim w w.dropEndpoint).endpoints.get? other = _
  rw [slot_grow]
  rcases hslot : slot endpoints n with _ | id
  · rfl
  · exact w.get?_dropEndpoint fun hid ↦ h (by rw [hslot, hid])

/-- At the other positions of a vector whose endpoints stand apart nothing changes. -/
theorem map_setEndpoint_of_ne (w : World) {endpoints : List (Option EndpointId)} {n m : Nat}
    (hapart : Apart endpoints) (hm : m ≠ n) (e : Option EndpointId) :
    (slot (w.setEndpoint endpoints n e).1 m).map (w.setEndpoint endpoints n e).2.endpoint =
      (slot endpoints m).map w.endpoint := by
  rw [slot_setEndpoint, if_neg hm]
  rcases hslot : slot endpoints m with _ | other
  · rfl
  · have hother : slot endpoints n ≠ some other := fun hn ↦ hm (hapart m n other hslot hn)
    rw [Option.map_some, Option.map_some, endpoint, w.get?_setEndpoint hother, endpoint]

theorem Open.setEndpoint {endpoints : List (Option EndpointId)} {n : Nat} (h : w.Open sid)
    (hw : w.Counted) (hslot : slot endpoints n ≠ some other)
    (he : w.endpoints.get? other = some e) (hsid : e.stream = some sid) (new : Option EndpointId) :
    (w.setEndpoint endpoints n new).2.Open sid := by
  change ((slot (grow endpoints (n + 1)) n).elim w w.dropEndpoint).Open sid
  rw [slot_grow]
  rcases hold : slot endpoints n with _ | id
  · exact h
  · exact h.dropEndpoint hw (fun hid ↦ hslot (by rw [hold, hid])) he hsid

/-! ## The endpoints of a fork -/

/-- The forks of endpoints that exist are new, stand apart and refer to what the endpoints refer
to. -/
theorem forkEndpoints_slots {endpoints : List (Option EndpointId)}
    (hexist : ∀ id, some id ∈ endpoints → id < w.endpoints.size) :
    (w.forkEndpoints endpoints).1.length = endpoints.length ∧
      Apart (w.forkEndpoints endpoints).1 ∧
      (∀ id, some id ∈ (w.forkEndpoints endpoints).1 → w.endpoints.size ≤ id) ∧
      ∀ n, (slot (w.forkEndpoints endpoints).1 n).map (w.forkEndpoints endpoints).2.endpoint =
        (slot endpoints n).map fun id ↦ (w.endpoint id).forked := by
  induction endpoints generalizing w with
  | nil => exact ⟨rfl, fun m n id hm _ ↦ by simp [forkEndpoints, slot] at hm, nofun, fun _ ↦ rfl⟩
  | cons e rest ih =>
    have hrest : ∀ id, some id ∈ rest → id < w.endpoints.size :=
      fun id hid ↦ hexist id (List.mem_cons_of_mem _ hid)
    cases e with
    | none =>
      obtain ⟨hlength, hapart, hnew, hslots⟩ := ih hrest
      refine ⟨by simp [forkEndpoints, hlength], hapart.cons_none, fun id hid ↦ ?_, fun n ↦ ?_⟩
      · exact hnew id (by simpa [forkEndpoints] using hid)
      · rcases n with _ | n
        · rfl
        · exact hslots n
    | some id =>
      have hcons : w.forkEndpoints (some id :: rest) =
          (some (w.forkEndpoint id).1 :: ((w.forkEndpoint id).2.forkEndpoints rest).1,
            ((w.forkEndpoint id).2.forkEndpoints rest).2) := rfl
      have hfork : (w.forkEndpoint id).2.endpoints = w.endpoints.push (w.endpoint id).forked :=
        newEndpoint_endpoints w _
      have hfst : (w.forkEndpoint id).1 = w.endpoints.size := newEndpoint_fst w _
      have hsize : (w.forkEndpoint id).2.endpoints.size = w.endpoints.size + 1 := by
        rw [hfork, Table.size_push]
      obtain ⟨hlength, hapart, hnew, hslots⟩ := ih (w := (w.forkEndpoint id).2) fun other hother ↦
        Nat.lt_of_lt_of_eq (Nat.lt_succ_of_lt (hrest other hother)) hsize.symm
      have hlater : Steady (w.forkEndpoint id).2 ((w.forkEndpoint id).2.forkEndpoints rest).2 :=
        .forkEndpoints _ rest
      have hkept : ∀ other, other < w.endpoints.size →
          (w.forkEndpoint id).2.endpoint other = w.endpoint other := by
        intro other hother
        rw [endpoint, hfork, Table.get?_push_of_lt hother, endpoint]
      rw [hcons, hfst]
      refine ⟨by simp [hlength], hapart.cons_some fun hmem ↦ ?_, fun other hother ↦ ?_, fun n ↦ ?_⟩
      · have hle := hnew _ hmem
        omega
      · rcases List.mem_cons.mp hother with hother | hother
        · exact Nat.le_of_eq (Option.some.inj hother).symm
        · have hle := hnew other hother
          omega
      · rcases n with _ | n
        · have hhead : (w.forkEndpoint id).2.endpoints.get? w.endpoints.size =
              some (w.endpoint id).forked := by
            rw [hfork, Table.get?_push_size]
          rw [slot_cons_zero, slot_cons_zero, Option.map_some, Option.map_some,
            endpoint_eq (hlater.get?_endpoints hhead)]
        · rw [slot_cons_succ, slot_cons_succ]
          refine (hslots n).trans ?_
          rcases hslot : slot rest n with _ | other
          · rfl
          · rw [Option.map_some, Option.map_some, hkept other (hrest other (mem_of_slot hslot))]

end World

end Conduit
