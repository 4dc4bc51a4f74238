import Conduit.Proofs.Capturing.Tap
import Conduit.Proofs.Reserve.Evaluation

/-!
# The Isolation of a Capture

The function under capture is called in a fork whose output is the tap.  So it sends on no channel
that was there before, has no access to what only the output of the caller gives access to, and does
not take what comes through the tap.  This makes a reserve that the fork is clear of.
-/

namespace Conduit.Eval

open World (Clear Harmless Respects RespectsStream)

variable {ctx : Context} {w : World} {n : Nat}

/-- The context has a stream for the device at a position other than the one for output. -/
def Elsewhere (ctx : Context) (w : World) (device : Device) : Prop :=
  ∃ n sid s, n ≠ 1 ∧ ctx.stream? w n = some sid ∧ w.streams.get? sid = some s ∧ s.device = device

/-- What is not to be done in place of output: to send on a channel, to receive from one that the
context does not receive from, and to do anything with pipes, streams and files without a path that
only the output of the context gives access to. -/
def outputReserve (ctx : Context) (w : World) : Reserve where
  receiving c := c < w.channels.size ∧ ctx.channel? w 0 ≠ some c
  sending c := c < w.channels.size
  reading pipe := pipe < w.pipes.size ∧ ¬ Elsewhere ctx w (.pipeReader pipe)
  writing pipe := pipe < w.pipes.size ∧ ¬ Elsewhere ctx w (.pipeWriter pipe)
  moving sid := sid < w.streams.size ∧ ∀ n, n ≠ 1 → ctx.stream? w n ≠ some sid
  filling node := w.files.Anonymous node ∧
    ∀ offset access, ¬ Elsewhere ctx w (.file node offset access)

/-- What the function is not to do while it is called: nor is it to take what comes through the
tap. -/
def tapReserve (ctx : Context) (w : World) : Reserve :=
  { outputReserve ctx w with
    receiving := fun c ↦ c = w.nextTap.channel ∨ (outputReserve ctx w).receiving c
    reading := fun pipe ↦ pipe = w.nextTap.pipe ∨ (outputReserve ctx w).reading pipe }

theorem outputReserve_within (ctx : Context) (w : World) :
    (outputReserve ctx w).Within (tapReserve ctx w) where
  receiving _ h := .inr h
  sending _ h := h
  reading _ h := .inr h
  writing _ h := h
  moving _ h := h
  filling _ h := h

/-- What is reserved exists as soon as the tap does. -/
theorem tappedWorld_includes (ctx : Context) (w : World) :
    (tappedWorld ctx w).Includes (tapReserve ctx w) := by
  have hadded : w.addTap.Includes (tapReserve ctx w) := by
    refine ⟨fun c hc ↦ ?_, fun pipe hpipe ↦ ?_, fun sid hsid ↦ ?_, fun node hnode ↦ hnode.1⟩
    · rw [w.addTap_channels, Table.size_push]
      rcases hc with (rfl | hc) | hc
      · exact Nat.lt_succ_self _
      · exact Nat.lt_succ_of_lt hc.1
      · exact Nat.lt_succ_of_lt hc
    · rw [w.addTap_pipes, Table.size_push]
      rcases hpipe with (rfl | hpipe) | hpipe
      · exact Nat.lt_succ_self _
      · exact Nat.lt_succ_of_lt hpipe.1
      · exact Nat.lt_succ_of_lt hpipe.1
    · have hrespects : Respects (outputReserve ctx w) w w.addTap := .addTap w
      exact Nat.lt_of_lt_of_le hsid.1 hrespects.streams.size_le
  exact hadded.after (tappedWorld_respects ctx w)

/-- The output endpoint gives access to the sending ends of the tap. -/
theorem harmless_output (ctx : Context) (w : World) :
    Harmless (tapReserve ctx w) 1 w.nextTap.outputEndpoint w.addTap where
  receiving := nofun
  sending _ _ hc := Option.some.inj hc ▸ w.nextTap_channel_not_lt
  stream sid hsid := by
    obtain rfl : w.nextTap.writer = sid := Option.some.inj hsid
    exact ⟨_, w.addTap_ends.2, fun hwriting ↦ w.nextTap_pipe_not_lt hwriting.1,
      fun hmoving ↦ w.nextTap_writer_not_lt hmoving.1⟩

/-- A fork of what stands at another position closes no channel, and gives access neither to the
receiving ends of the tap nor to what only the output gives access to. -/
theorem harmless_forked (hctx : Grounded ctx w) (hn : n ≠ 1) {e : Endpoint}
    (he : ctx.endpoint? w n = some e) :
    Harmless (tapReserve ctx w) n e.forked w.addTap := by
  refine ⟨fun hinput c hc hreserved ↦ ?_, fun hsends ↦ (hsends.elim hn nofun).elim,
    fun sid hsid ↦ ?_⟩
  · have hchannel : ctx.channel? w n = some c := Option.bind_eq_some_iff.mpr ⟨e, he, hc⟩
    rcases hreserved with rfl | ⟨-, hunread⟩
    · exact w.nextTap_channel_not_lt (hctx.channels n _ hchannel)
    · exact hunread (hinput ▸ hchannel)
  · have hstream : ctx.stream? w n = some sid := Option.bind_eq_some_iff.mpr ⟨e, he, hsid⟩
    obtain ⟨s, hs, hpipe⟩ := hctx.streams n sid hstream
    have helsewhere : Elsewhere ctx w s.device := ⟨n, sid, s, hn, hstream, hs, rfl⟩
    have hrespects : RespectsStream (tapReserve ctx w) sid w := by
      refine ⟨s, hs, ?_, fun honly ↦ honly.2 n hn hstream⟩
      rcases hdevice : s.device with ⟨node, offset, access⟩ | pipe | pipe | _ <;>
        rw [hdevice] at helsewhere
      case file => exact fun honly ↦ honly.2 offset access helsewhere
      case pipeReader =>
        rintro (rfl | honly)
        · exact w.nextTap_pipe_not_lt (hpipe _ hdevice)
        · exact honly.2 helsewhere
      case pipeWriter => exact fun honly ↦ honly.2 helsewhere
      case terminal => trivial
    exact hrespects.after (.addTap w)

/-- The fork is clear of what is reserved. -/
theorem tapped_clear (hctx : Grounded ctx w) :
    Clear (tapReserve ctx w) (tapped ctx w).endpoints (tappedWorld ctx w) := by
  refine ⟨tappedWorld_includes ctx w, fun n id hid ↦ ⟨_, tapped_exists hid, ?_⟩⟩
  by_cases hn : n = 1
  · subst hn
    rw [tapped_slot_output, Option.some.injEq] at hid
    rw [← hid, World.endpoint_eq (tappedWorld_output ctx w)]
    exact (harmless_output ctx w).after (tappedWorld_respects ctx w)
  · have hforked := tapped_endpoint? hctx hn
    rw [Context.endpoint?, hid, Option.map_some] at hforked
    obtain ⟨e, he, heq⟩ := Option.map_eq_some_iff.mp hforked.symm
    rw [← heq]
    exact (harmless_forked hctx hn he).after (tappedWorld_respects ctx w)

end Conduit.Eval
