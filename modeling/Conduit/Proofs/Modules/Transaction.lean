import Conduit.Proofs.Modules.Nesting

/-!
# The Use of a Module as a Transaction

The use of a module either comes back with the module registered or leaves it unregistered, whichever
step of the load fails, and in no case does it change another registration.  A module that is loaded
again inside a load of itself is the exception, since the inner load may succeed where the outer one
fails.  From the moment that a module is registered its scope is fixed, and its file is not read
again.
-/

namespace Conduit

open World (Loads)
open Event (begun)

namespace Eval

variable {setup : Setup} {go : Runner} {ctx : Context} {name : Bytes} {w : World}

theorem unregistered_iff {w' : World} {outcome : Outcome Unit} (hname : w'.module? name = none)
    (houtcome : outcome ≠ .done ()) : (w'.module? name).isSome ↔ outcome = .done () :=
  iff_of_false (by simp [hname]) houtcome

/-- A load that breaks off leaves the module unregistered, unless loads of it have begun inside. -/
theorem loadModule_settles (hgo : Runner.Keeps Loads go) (ctx : Context)
    (hname : w.module? name = none) :
    ∃ events, (loadModule setup go ctx name w).2.journal = w.journal ++ events ∧
      ((begun events).count name ≤ 1 →
        (((loadModule setup go ctx name w).2.module? name).isSome ↔
          (loadModule setup go ctx name w).1 = .done ())) := by
  have hfile : (loadFile setup go ctx name).Leads (w.note (.loadBegan name)) _ (Loads _) :=
    leads_loadFile (keeps_runModule hgo ctx) name _
  unfold loadModule
  split
  · exact ⟨[], (List.append_nil _).symm, fun _ ↦ unregistered_iff hname nofun⟩
  · rw [Act.modify_bind]
    unfold Act.Leads at hfile
    unfold Act.ensuring
    rcases hact : loadFile setup go ctx name (w.note (.loadBegan name)) with ⟨_ | e | what | reason, v⟩ <;>
      rw [hact] at hfile
    case done =>
      obtain ⟨id, evaluated, ⟨events, hevents, -⟩, rfl⟩ := hfile
      refine ⟨_, Loads.journal_around hevents, fun _ ↦ iff_of_true ?_ rfl⟩
      change ((register name id evaluated).module? name).isSome
      rw [World.module?_register, if_pos rfl]
      rfl
    all_goals
      obtain ⟨events, hevents, -, -, hothers⟩ := hfile
      refine ⟨_, Loads.journal_around hevents, fun hcount ↦
        unregistered_iff ((hothers name fun hmem ↦ ?_).trans hname) nofun⟩
      rw [Event.begun_around, List.count_cons_self] at hcount
      exact Nat.not_lt.mpr (Nat.le_of_succ_le_succ hcount) (List.count_pos_iff.mpr hmem)

theorem use_settles (setup : Setup) (fuel : Nat) (ctx : Context) (name : Bytes) (w : World) :
    ∃ events, (use (run setup fuel) ctx name w).2.journal = w.journal ++ events ∧
      ((begun events).count name ≤ 1 →
        (((use (run setup fuel) ctx name w).2.module? name).isSome ↔
          (use (run setup fuel) ctx name w).1 = .done ())) := by
  rcases hname : w.module? name with _ | id
  · unfold use
    rw [Act.world_bind, hname]
    cases fuel with
    | zero => exact ⟨[], (List.append_nil _).symm, fun _ ↦ unregistered_iff hname nofun⟩
    | succ fuel => exact loadModule_settles (keeps_requests setup fuel) ctx hname
  · have hsome : (w.module? name).isSome := by
      rw [hname]
      rfl
    rw [use_registered _ _ hsome]
    exact ⟨[], (List.append_nil _).symm, fun _ ↦ iff_of_true hsome rfl⟩

end Eval

namespace Shell

open Eval (run use UseEnds)

theorem module?_pairUsed : pairUsed.module? (utf8 "a") = some 2 := by
  decide +kernel

end Shell

end Conduit
