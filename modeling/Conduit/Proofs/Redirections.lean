import Conduit.Proofs.Assignment
import Conduit.Proofs.Destructuring.Targets
import Conduit.Proofs.Handling
import Conduit.Proofs.Ownership.Evaluation
import Conduit.Proofs.Ownership.Slots

/-!
# Redirections of a Command

The redirections of a command are made from left to right in one fork of the context.  Each target
is evaluated in the fork as the redirections before have left it, and the endpoint it puts in place
takes over the channel of the endpoint that stood there.  Since that channel is the caller's from
the beginning, the channel at a position is the caller's however often the position is redirected,
and the stream is the one that was opened last.

The invariant says, for the fork after some of the redirections, what stands at every position, that
all its endpoints are new and each of them stands at one position only, and that the streams opened
last are open.  The positions have to be apart because an endpoint that is replaced goes away.
-/

namespace Conduit

namespace Eval

open World (Steady Owned Fresh Open Apart)
open Code (Redirection)

/-! ## What a command has evaluated before its redirections -/

/-- The function and the values of a command. -/
def callee (go : Runner) (ctx : Context) (span : Span) (head : Code.Head)
    (arguments : List Code.Expr) : Act (Fn × List Value) := do
  beginForm span
  let values ← evalHead go ctx head
  let f ← soleFunction values
  let arguments ← evalExprs go ctx arguments
  pure (f, arguments)

theorem evalForm_redirected (go : Runner) (ctx : Context) (span : Span) (head : Code.Head)
    (arguments : List Code.Expr) {redirections : List Redirection} (h : redirections ≠ []) :
    evalForm go ctx (.command span head arguments redirections) =
      callee go ctx span head arguments >>= fun called ↦ ctx.fork (utf8 "redir") >>= fun fork ↦
        withRedirections go fork (fun rec ↦ go (.call rec called.1 called.2)) redirections := by
  have hempty : redirections.isEmpty = false := by simpa using h
  simp only [evalForm, callee, hempty, bind_assoc, pure_bind]
  rfl

theorem keeps_callee {R : World → World → Prop} [Persistent R] [Mobile R] {go : Runner} {ctx : Context}
    (hgo : Runner.KeepsIn R go ctx) (span : Span) (head : Code.Head) (arguments : List Code.Expr) :
    (callee go ctx span head arguments).Keeps R :=
  (keeps_beginForm span).bind fun _ ↦ (keeps_evalHead hgo head).bind fun values ↦
    (keeps_soleFunction values).bind fun _ ↦ (keeps_evalExprs hgo arguments).bind fun _ ↦ .pure _

/-! ## Redirections that succeed and redirections that fail -/

/-- The context with a new endpoint for a stream at a position, which has the channel of the
endpoint that stood there, and the state reached. -/
def install (ctx : Context) (n : Nat) (stream : StreamId) (w : World) : Context × World :=
  let made := w.newEndpoint { stream := some stream, channel := ctx.channel? w n }
  let filled := made.2.setEndpoint ctx.endpoints n (some made.1)
  ({ ctx with endpoints := filled.1 }, filled.2)

/-- Redirections have been made one after another: each target came to one text, which named a file
that could be opened.  The list says which stream was opened for which position, in order. -/
inductive Redirected (go : Runner) : Context → World → List Redirection → List (Nat × StreamId) →
    Context → World → Prop
  | nil (ctx : Context) (w : World) : Redirected go ctx w [] [] ctx w
  | cons (span : Span) {ctx rec : Context} {w w₁ w₂ w' : World} {n : Nat}
      {mode : Host.OpenMode} {target : Code.Expr} {path : Bytes} {stream : StreamId}
      {rest : List Redirection} {opened : List (Nat × StreamId)}
      (heval : evalExpr go ctx target w = (.done [.text path], w₁))
      (hopen : openFile mode path w₁ = (.done stream, w₂))
      (hrest : Redirected go (install ctx n stream w₂).1 (install ctx n stream w₂).2 rest opened
        rec w') :
      Redirected go ctx w (.mk span n mode target :: rest) ((n, stream) :: opened) rec w'

/-- A redirection fails with an error: its target raises one, or comes to another number of values
than one, or to a value that is not a text, or to a path that cannot be opened. -/
inductive Refused (go : Runner) (ctx : Context) (w : World) : Redirection → Error → World → Prop
  | raised {span : Span} {n : Nat} {mode : Host.OpenMode} {target : Code.Expr} {e : Error}
      {w' : World} (heval : evalExpr go ctx target w = (.raised e, w')) :
      Refused go ctx w (.mk span n mode target) e w'
  | number {span : Span} {n : Nat} {mode : Host.OpenMode} {target : Code.Expr}
      {values : List Value} {w' : World} (heval : evalExpr go ctx target w = (.done values, w'))
      (hnumber : values.length ≠ 1) :
      Refused go ctx w (.mk span n mode target)
        (.blaming span (utf8 "redirection target must be a single string")) w'
  | kind {span : Span} {n : Nat} {mode : Host.OpenMode} {target : Code.Expr} {v : Value}
      {w' : World} (heval : evalExpr go ctx target w = (.done [v], w'))
      (htext : ∀ path, v ≠ .text path) :
      Refused go ctx w (.mk span n mode target)
        ⟨.type, utf8 "redirection target" ++ utf8 " must be a string, got " ++ v.kindName, none⟩ w'
  | file {span : Span} {n : Nat} {mode : Host.OpenMode} {target : Code.Expr} {path : Bytes}
      {reason : Host.Errno} {w' : World}
      (heval : evalExpr go ctx target w = (.done [.text path], w'))
      (hfile : w'.files.openFile w'.directory mode path = .error reason) :
      Refused go ctx w (.mk span n mode target)
        ⟨.io, utf8 "open " ++ path ++ utf8 ": " ++ reason.text, none⟩ w'

/-- The evaluation of a target does not come back: it throws a foreign exception or does not
end. -/
def Diverted (go : Runner) (ctx : Context) (w : World) : Redirection → Prop
  | .mk _ _ _ target =>
    (∃ what w', evalExpr go ctx target w = (.foreign what, w')) ∨
      ∃ reason w', evalExpr go ctx target w = (.halted reason, w')

variable {go : Runner} {ctx ctx' rec : Context} {w w₁ w₂ w' : World} {r : Redirection}
  {redirections rest : List Redirection} {opened : List (Nat × StreamId)} {e : Error}

theorem redirect_of_done (span : Span) (n : Nat) {mode : Host.OpenMode} {target : Code.Expr}
    {path : Bytes} {stream : StreamId}
    (heval : evalExpr go ctx target w = (.done [.text path], w₁))
    (hopen : openFile mode path w₁ = (.done stream, w₂)) :
    redirect go ctx (.mk span n mode target) w =
      (.done (install ctx n stream w₂).1, (install ctx n stream w₂).2) := by
  have hpath : redirectionPath span [.text path] w₁ = (.done path, w₁) := rfl
  rw [redirect, Act.bind_of_done heval, Act.bind_of_done hpath, Act.bind_of_done hopen]
  rfl

/-- Redirections that have been made are behind; the others are made in the context that they have
left. -/
theorem withRedirections_append (act : Context → Act Unit)
    (h : Redirected go ctx w redirections opened rec w') (rest : List Redirection) :
    withRedirections go ctx act (redirections ++ rest) w =
      withRedirections go rec act rest w' := by
  induction h with
  | nil => rfl
  | cons span heval hopen _ ih =>
    rw [List.cons_append, withRedirections, Act.bind_of_done]
    · exact ih
    · simp only [Act.orElseChange, redirect_of_done span _ heval hopen]

theorem redirect_of_refused (h : Refused go ctx w r e w') :
    redirect go ctx r w = (.raised e, w') := by
  cases h with
  | raised heval => rw [redirect, Act.bind_apply, heval]
  | @number span n mode target values _ heval hnumber =>
    have hpath : redirectionPath span values w' =
        (.raised (.blaming span (utf8 "redirection target must be a single string")), w') := by
      rcases values with _ | ⟨v, _ | ⟨v', values⟩⟩
      · rfl
      · exact absurd rfl hnumber
      · rfl
    rw [redirect, Act.bind_of_done heval, Act.bind_apply, hpath]
  | @kind span n mode target v _ heval htext =>
    have hpath : redirectionPath span [v] w' = (.raised ⟨.type, utf8 "redirection target" ++
        utf8 " must be a string, got " ++ v.kindName, none⟩, w') := by
      cases v with
      | text path => exact absurd rfl (htext path)
      | _ => rfl
    rw [redirect, Act.bind_of_done heval, Act.bind_apply, hpath]
  | @file span n mode target path reason _ heval hfile =>
    have hpath : redirectionPath span [.text path] w' = (.done path, w') := rfl
    have hopen : openFile mode path w' =
        (.raised ⟨.io, utf8 "open " ++ path ++ utf8 ": " ++ reason.text, none⟩, w') := by
      simp only [openFile, hfile]
    rw [redirect, Act.bind_of_done heval, Act.bind_of_done hpath, Act.bind_apply, hopen]

/-- A redirection that fails ends the whole, and the context goes away. -/
theorem withRedirections_of_refused (act : Context → Act Unit) (h : Refused go ctx w r e w')
    (rest : List Redirection) :
    withRedirections go ctx act (r :: rest) w = (.raised e, ctx.drop w') := by
  simp only [withRedirections, Act.bind_apply, Act.orElseChange, redirect_of_refused h]

/-- A redirection is made, fails or is diverted. -/
theorem redirection_cases (go : Runner) (ctx : Context) (r : Redirection) (w : World) :
    (∃ opened rec w', Redirected go ctx w [r] opened rec w') ∨ (∃ e w', Refused go ctx w r e w') ∨
      Diverted go ctx w r := by
  obtain ⟨span, n, mode, target⟩ := r
  rcases heval : evalExpr go ctx target w with ⟨values | e | what | reason, w'⟩
  case raised => exact .inr (.inl ⟨e, w', .raised heval⟩)
  case foreign => exact .inr (.inr (.inl ⟨what, w', heval⟩))
  case halted => exact .inr (.inr (.inr ⟨reason, w', heval⟩))
  case done =>
    by_cases hnumber : values.length = 1
    case neg => exact .inr (.inl ⟨_, w', .number heval hnumber⟩)
    case pos =>
      obtain ⟨v, rfl⟩ := List.length_eq_one_iff.mp hnumber
      by_cases htext : ∃ path, v = .text path
      case neg => exact .inr (.inl ⟨_, w', .kind heval fun path h ↦ htext ⟨path, h⟩⟩)
      case pos =>
        obtain ⟨path, rfl⟩ := htext
        rcases hfile : w'.files.openFile w'.directory mode path with reason | ⟨files, node⟩
        · exact .inr (.inl ⟨_, w', .file heval hfile⟩)
        · have hopen : openFile mode path w' = (.done w'.streams.size,
              ({ w' with files }.newStream (.file node 0 (accessOf mode)) true).2) := by
            simp only [openFile, hfile]
            rfl
          exact .inl ⟨_, _, _, .cons span heval hopen (.nil _ _)⟩

theorem Redirected.cons_of_one (h : Redirected go ctx w [r] opened ctx' w₁)
    {later : List (Nat × StreamId)} (hrest : Redirected go ctx' w₁ rest later rec w') :
    Redirected go ctx w (r :: rest) (opened ++ later) rec w' := by
  cases h with
  | cons span heval hopen hnil =>
    cases hnil
    exact .cons span heval hopen hrest

/-- Redirections are all made, or up to one that fails, or up to one that is diverted. -/
theorem redirected_cases (go : Runner) (ctx : Context) (redirections : List Redirection)
    (w : World) :
    (∃ opened rec w', Redirected go ctx w redirections opened rec w') ∨
      ∃ before r after opened rec w', redirections = before ++ r :: after ∧
        Redirected go ctx w before opened rec w' ∧
          ((∃ e w'', Refused go rec w' r e w'') ∨ Diverted go rec w' r) := by
  induction redirections generalizing ctx w with
  | nil => exact .inl ⟨_, _, _, .nil ctx w⟩
  | cons r rest ih =>
    rcases redirection_cases go ctx r w with ⟨opened, ctx', w', hfirst⟩ | hrefused | hdiverted
    · rcases ih ctx' w' with ⟨later, rec, w'', hrest⟩ |
        ⟨before, r', after, later, rec, w'', rfl, hbefore, hends⟩
      · exact .inl ⟨_, rec, w'', hfirst.cons_of_one hrest⟩
      · exact .inr ⟨r :: before, r', after, _, rec, w'', rfl, hfirst.cons_of_one hbefore, hends⟩
    · exact .inr ⟨[], r, rest, [], ctx, w, rfl, .nil ctx w, .inl hrefused⟩
    · exact .inr ⟨[], r, rest, [], ctx, w, rfl, .nil ctx w, .inr hdiverted⟩

/-! ## What stands at every position -/

/-- The stream that was opened last for a position. -/
def lastOpened (opened : List (Nat × StreamId)) (n : Nat) : Option StreamId :=
  opened.reverse.lookup n

/-- What stands at a position after streams have been opened for some positions: the stream that
was opened last with the channel of the caller's endpoint, or else a fork of the caller's
endpoint. -/
def redirectedEndpoint (ctx : Context) (w : World) (opened : List (Nat × StreamId)) (n : Nat) :
    Option Endpoint :=
  match lastOpened opened n with
  | some stream => some { stream := some stream, channel := ctx.channel? w n }
  | none => (ctx.endpoint? w n).map Endpoint.forked

/-- The number of positions that there are then. -/
def redirectedLength (ctx : Context) (opened : List (Nat × StreamId)) : Nat :=
  opened.foldl (fun length redirected ↦ max length (redirected.1 + 1)) ctx.endpoints.length

theorem lastOpened_concat (opened : List (Nat × StreamId)) (n m : Nat) (stream : StreamId) :
    lastOpened (opened ++ [(n, stream)]) m =
      if m = n then some stream else lastOpened opened m := by
  unfold lastOpened
  rw [List.reverse_append, List.reverse_singleton, List.singleton_append, List.lookup_cons]
  by_cases h : m = n
  · simp [h]
  · simp [h, beq_eq_false_iff_ne.mpr h]

theorem redirectedEndpoint_channel (ctx : Context) (w : World) (opened : List (Nat × StreamId))
    (n : Nat) : (redirectedEndpoint ctx w opened n).bind Endpoint.channel = ctx.channel? w n := by
  unfold redirectedEndpoint
  cases lastOpened opened n with
  | some stream => rfl
  | none => simp only [Option.bind_map, Context.channel?]; rfl

/-- A context is the fork of another one, as it was in an earlier state, after streams have been
opened for some of its positions. -/
structure Arranged (ctx : Context) (w₁ : World) (opened : List (Nat × StreamId)) (rec : Context)
    (w : World) : Prop where
  owned : Owned w₁ rec.endpoints w
  apart : Apart rec.endpoints
  endpoints : ∀ n, rec.endpoint? w n = redirectedEndpoint ctx w₁ opened n
  length : rec.endpoints.length = redirectedLength ctx opened
  isOpen : w₁.Counted → ∀ n stream, lastOpened opened n = some stream → w.Open stream
  same : rec = { ctx with label := utf8 "redir", endpoints := rec.endpoints }

namespace Arranged

/-- The endpoint at a position exists. -/
theorem exists_get? (h : Arranged ctx w₁ opened rec w) {n : Nat} {id : EndpointId}
    (hid : World.slot rec.endpoints n = some id) :
    ∃ e, w.endpoints.get? id = some e ∧ redirectedEndpoint ctx w₁ opened n = some e := by
  obtain ⟨-, e, he, -⟩ := h.owned.fresh id (World.mem_of_slot hid)
  refine ⟨e, he, ?_⟩
  rw [← h.endpoints, Context.endpoint?, hid, Option.map_some, World.endpoint_eq he]

/-- The endpoint with the stream that was opened last. -/
theorem exists_of_lastOpened (h : Arranged ctx w₁ opened rec w) {n : Nat} {stream : StreamId}
    (hlast : lastOpened opened n = some stream) :
    ∃ id e, World.slot rec.endpoints n = some id ∧ w.endpoints.get? id = some e ∧
      e.stream = some stream := by
  have hendpoint := h.endpoints n
  rw [redirectedEndpoint, hlast] at hendpoint
  obtain ⟨id, hid, -⟩ := Option.map_eq_some_iff.mp hendpoint
  obtain ⟨e, he, hsame⟩ := h.exists_get? hid
  rw [redirectedEndpoint, hlast] at hsame
  exact ⟨id, e, hid, he, by rw [← Option.some.inj hsame]⟩

theorem of_fork {fork : Context} (hexist : ∀ id, some id ∈ ctx.endpoints → id < w.endpoints.size)
    (hfork : ctx.fork (utf8 "redir") w = (.done fork, w')) : Arranged ctx w [] fork w' := by
  obtain ⟨hlength, hapart, -, hslots⟩ := World.forkEndpoints_slots hexist
  cases hfork
  exact
    { owned := .forkEndpoints (.refl w) ctx.endpoints
      apart := hapart
      endpoints := fun n ↦ by
        rw [redirectedEndpoint, Context.endpoint?, Context.endpoint?, Option.map_map]
        exact hslots n
      length := hlength
      isOpen := nofun
      same := rfl }

theorem steady (h : Arranged ctx w₁ opened rec w) (hsteady : Steady w w') :
    Arranged ctx w₁ opened rec w' where
  owned := h.owned.after hsteady
  apart := h.apart
  endpoints n := by
    rw [← h.endpoints, Context.endpoint?, Context.endpoint?]
    rcases hid : World.slot rec.endpoints n with _ | id
    · rfl
    · obtain ⟨e, he, -⟩ := h.exists_get? hid
      rw [Option.map_some, Option.map_some, World.endpoint_eq he,
        World.endpoint_eq (hsteady.get?_endpoints he)]
  length := h.length
  isOpen hw n stream hlast := by
    obtain ⟨id, e, -, he, hstream⟩ := h.exists_of_lastOpened hlast
    exact (h.isOpen hw n stream hlast).steady (h.owned.steady.counted hw) hsteady he hstream
  same := h.same

theorem channel? (h : Arranged ctx w₁ opened rec w) (n : Nat) :
    rec.channel? w n = ctx.channel? w₁ n := by
  rw [Context.channel?, h.endpoints, redirectedEndpoint_channel]

/-- A new endpoint takes the place of one that stands nowhere else. -/
theorem install (h : Arranged ctx w₁ opened rec w) (n : Nat) {stream : StreamId}
    (hopen : w.Open stream) : Arranged ctx w₁ (opened ++ [(n, stream)])
      (install rec n stream w).1 (install rec n stream w).2 := by
  let made : Endpoint := { stream := some stream, channel := rec.channel? w n }
  have hmade : made = { stream := some stream, channel := ctx.channel? w₁ n } :=
    congrArg (fun channel ↦ ({ stream := some stream, channel } : Endpoint)) (h.channel? n)
  have hexists : ∀ sid, made.stream = some sid → (w.streams.get? sid).isSome := by
    intro sid hsid
    obtain ⟨s, hs, -⟩ := hopen
    rw [← Option.some.inj hsid, hs]
    rfl
  have hsteady : Steady w (w.newEndpoint made).2 := .newEndpoint w fun _ ↦ hexists
  have h₂ := h.steady hsteady
  have hget : (w.newEndpoint made).2.endpoints.get? w.endpoints.size = some made := by
    rw [World.newEndpoint_endpoints, Table.get?_push_size]
  have hfresh : Fresh w₁ w.endpoints.size (w.newEndpoint made).2 :=
    ⟨h.owned.steady.size_le, made, hget, nofun⟩
  have hnew : some w.endpoints.size ∉ rec.endpoints := by
    intro hmem
    obtain ⟨-, e, he, -⟩ := h.owned.fresh _ hmem
    exact absurd (Table.lt_size_of_get? he) (Nat.lt_irrefl _)
  have hfirst : (w.newEndpoint made).1 = w.endpoints.size := World.newEndpoint_fst w made
  have hleft : World.slot rec.endpoints n ≠ some w.endpoints.size :=
    fun hslot ↦ hnew (World.mem_of_slot hslot)
  have hother : ∀ {m id}, m ≠ n → World.slot rec.endpoints m = some id →
      World.slot rec.endpoints n ≠ some id :=
    fun hm hid hslot ↦ hm (h.apart _ _ _ hid hslot)
  unfold Eval.install
  dsimp only
  rw [hfirst]
  exact
    { owned := h₂.owned.setEndpoint n fun id hid ↦ Option.some.inj hid ▸ hfresh
      apart := h.apart.setEndpoint hnew (w.newEndpoint made).2 n
      endpoints := fun m ↦ by
        rw [redirectedEndpoint, lastOpened_concat]
        by_cases hm : m = n
        · rw [if_pos hm, Context.endpoint?, World.slot_setEndpoint, if_pos hm, Option.map_some,
            World.endpoint_eq (((w.newEndpoint made).2.get?_setEndpoint hleft _).trans hget), hmade,
            hm]
        · rw [if_neg hm, ← redirectedEndpoint, ← h₂.endpoints]
          exact World.map_setEndpoint_of_ne _ h.apart hm _
      length := by
        change ((World.grow rec.endpoints (n + 1)).set n _).length = _
        rw [List.length_set, World.grow, List.length_append, List.length_replicate, h.length,
          redirectedLength, redirectedLength, List.foldl_append]
        simp only [List.foldl_cons, List.foldl_nil]
        omega
      isOpen := fun hw m sid hlast ↦ by
        have hcounted := h₂.owned.steady.counted hw
        rw [lastOpened_concat] at hlast
        split at hlast
        · obtain rfl := Option.some.inj hlast
          exact (hopen.newEndpoint made).setEndpoint hcounted hleft hget rfl _
        · rename_i hm
          obtain ⟨id, e, hid, he, hstream⟩ := h₂.exists_of_lastOpened hlast
          exact (h₂.isOpen hw m sid hlast).setEndpoint hcounted (hother hm hid) he hstream _
      same := by rw [h.same] }

theorem open_of_openFile {mode : Host.OpenMode} {path : Bytes} {stream : StreamId}
    (h : openFile mode path w = (.done stream, w')) : w'.Open stream := by
  unfold openFile at h
  split at h
  · cases h
    exact ⟨_, Table.get?_push_size _ _, rfl⟩
  · cases h

/-- The invariant goes through redirections that are made. -/
theorem redirected (hgo : Runner.Keeps Steady go) {ctx₀ : Context} {before : List (Nat × StreamId)}
    (h : Redirected go ctx w redirections opened rec w')
    (harranged : Arranged ctx₀ w₁ before ctx w) : Arranged ctx₀ w₁ (before ++ opened) rec w' := by
  induction h generalizing before with
  | nil => rwa [List.append_nil]
  | @cons _ ctx _ _ _ _ _ n _ target _ _ _ _ heval hopen _ ih =>
    have heval' := (keeps_evalExpr (hgo.inContext ctx) target).of_done heval
    have hopen' := (keeps_calm (R := Steady) (calm_openFile _ _)).of_done hopen
    have hmade := ((harranged.steady heval').steady hopen').install n (open_of_openFile hopen)
    rw [List.append_cons]
    exact ih hmade

end Arranged

/-! ## Commands with redirections -/

/-- The redirections of a command are seen by the called function only.  Once the function and the
values are there, the redirections are made in a fork of the context.  If all of them are made, the
function is called once, in a context for the same code with the same scopes, in which every
redirected position has the file opened last with the channel of the caller's endpoint, which it
does not close, and every other position a fork of the caller's endpoint, or nothing.  If one fails,
the command ends with its error; neither the function nor any later redirection has a part in it.
In every case, also if the evaluation of a target does not come back, the endpoints of the caller
are what they were, their channels have not been closed and their streams are as open as before. -/
theorem command_redirects {setup : Setup} {fuel : Nat} {ctx : Context} {span : Span}
    {head : Code.Head} {arguments : List Code.Expr} {redirections : List Redirection} {f : Fn}
    {args : List Value} {w w₁ : World}
    (hexist : ∀ id, some id ∈ ctx.endpoints → id < w.endpoints.size)
    (hcallee : callee (run setup fuel) ctx span head arguments w = (.done (f, args), w₁))
    (hsome : redirections ≠ []) :
    ∃ fork w₂, ctx.fork (utf8 "redir") w₁ = (.done fork, w₂) ∧
      (∀ opened rec w', Redirected (run setup fuel) fork w₂ redirections opened rec w' →
        Arranged ctx w₁ opened rec w' ∧
          evalForm (run setup fuel) ctx (.command span head arguments redirections) w =
            ((run setup fuel (.call rec f args)).ensuring rec.drop) w') ∧
      (∀ before r after opened rec w' e w'', redirections = before ++ r :: after →
        Redirected (run setup fuel) fork w₂ before opened rec w' →
        Refused (run setup fuel) rec w' r e w'' →
          evalForm (run setup fuel) ctx (.command span head arguments redirections) w =
            (.raised e, rec.drop w'')) ∧
      ((∃ opened rec w', Redirected (run setup fuel) fork w₂ redirections opened rec w') ∨
        ∃ before r after opened rec w', redirections = before ++ r :: after ∧
          Redirected (run setup fuel) fork w₂ before opened rec w' ∧
            ((∃ e w'', Refused (run setup fuel) rec w' r e w'') ∨
              Diverted (run setup fuel) rec w' r)) ∧
      Steady w (evalForm (run setup fuel) ctx (.command span head arguments redirections) w).2 ∧
      ∀ n, ctx.endpoint?
        (evalForm (run setup fuel) ctx (.command span head arguments redirections) w).2 n =
          ctx.endpoint? w n := by
  have hgo := steady_run setup fuel
  have hbefore : Steady w w₁ :=
    (keeps_callee (hgo.inContext ctx) span head arguments).of_done hcallee
  have hexist₁ : ∀ id, some id ∈ ctx.endpoints → id < w₁.endpoints.size :=
    fun id hid ↦ Nat.lt_of_lt_of_le (hexist id hid) hbefore.size_le
  obtain ⟨fork, w₂, hfork⟩ : ∃ fork w₂, ctx.fork (utf8 "redir") w₁ = (.done fork, w₂) :=
    ⟨_, _, rfl⟩
  have hform : evalForm (run setup fuel) ctx (.command span head arguments redirections) w =
      withRedirections (run setup fuel) fork (fun rec ↦ run setup fuel (.call rec f args))
        redirections w₂ := by
    rw [evalForm_redirected _ _ _ _ _ hsome, Act.bind_of_done hcallee, Act.bind_of_done hfork]
  have hsteady := steady_evalForm hgo ctx (.command span head arguments redirections) w
  refine ⟨fork, w₂, hfork, fun opened rec w' hmade ↦ ⟨?_, ?_⟩, ?_,
    redirected_cases _ fork redirections w₂, hsteady, fun n ↦ ?_⟩
  · exact .redirected hgo hmade (.of_fork hexist₁ hfork)
  · have hall := withRedirections_append (fun rec ↦ run setup fuel (.call rec f args)) hmade []
    rw [List.append_nil] at hall
    rw [hform, hall, withRedirections]
  · rintro before r after opened rec w' e w'' rfl hmade hrefused
    rw [hform, withRedirections_append _ hmade, withRedirections_of_refused _ hrefused]
  · rw [Context.endpoint?, Context.endpoint?]
    rcases hid : World.slot ctx.endpoints n with _ | id
    · rfl
    · obtain ⟨e, he⟩ : ∃ e, w.endpoints.get? id = some e :=
        Table.exists_get?_of_lt (hexist id (World.mem_of_slot hid))
      rw [Option.map_some, Option.map_some, World.endpoint_eq he,
        World.endpoint_eq (hsteady.get?_endpoints he)]

/-- A state with one endpoint, which has a terminal and a channel. -/
def endpointAndChannel : World where
  scopes := ⟨[{}, {}]⟩
  endpoints := ⟨[{ stream := some 0, channel := some 0 }]⟩
  streams := ⟨[{ device := .terminal, holders := 1 }]⟩
  channels := ⟨[{ channel := .ofCapacity 1 }]⟩

/-- A context with this endpoint. -/
def oneEndpoint : Context := { topLevel with endpoints := [some 0] }

/-- The head of a command that is a lambda without parameters and without forms. -/
def emptyLambda : Code.Head := .computed (.lambda [] (.mk ⟨0, 3⟩ []))

/-- The redirections `0> a`, `2> b` and `0> c`. -/
def threeRedirections : List Redirection :=
  [.mk ⟨4, 8⟩ 0 .write (.text [0x61]), .mk ⟨9, 13⟩ 2 .write (.text [0x62]),
    .mk ⟨14, 18⟩ 0 .write (.text [0x63])]

theorem openFile_eq {mode : Host.OpenMode} {path : Bytes} {w : World} {stream : StreamId}
    (h : (openFile mode path w).1 = .done stream) :
    openFile mode path w = (.done stream, (openFile mode path w).2) :=
  Prod.ext h rfl

/-- With `0> a 2> b 0> c` the lambda has the file c and the channel of the caller's endpoint at
position 0, nothing at position 1 and the file b at position 2. -/
theorem command_redirects_repeated :
    ∃ f args w₁, callee (run {} 1) oneEndpoint ⟨0, 18⟩ emptyLambda [] endpointAndChannel =
        (.done (f, args), w₁) ∧
      ∃ rec w', Arranged oneEndpoint w₁ [(0, 1), (2, 2), (0, 3)] rec w' ∧
        evalForm (run {} 1) oneEndpoint (.command ⟨0, 18⟩ emptyLambda [] threeRedirections)
          endpointAndChannel = ((run {} 1 (.call rec f args)).ensuring rec.drop) w' ∧
        rec.endpoint? w' 0 = some { stream := some 3, channel := some 0 } ∧
        rec.endpoint? w' 1 = none ∧ rec.endpoint? w' 2 = some { stream := some 2 } := by
  let lambda : Closure :=
    { parameters := [], body := .mk ⟨0, 3⟩ [], captured := 2, name := [], text := [],
      chunk := default }
  have hcallee : callee (run {} 1) oneEndpoint ⟨0, 18⟩ emptyLambda [] endpointAndChannel =
      (.done (.closure lambda, []),
        (callee (run {} 1) oneEndpoint ⟨0, 18⟩ emptyLambda [] endpointAndChannel).2) := rfl
  have hexist : ∀ id, some id ∈ oneEndpoint.endpoints → id < endpointAndChannel.endpoints.size := by
    intro id hid
    obtain rfl : id = 0 := by simpa [oneEndpoint] using hid
    decide
  have hsome : threeRedirections ≠ [] := by decide
  obtain ⟨fork, w₂, hfork, hcalled, -⟩ := command_redirects hexist hcallee hsome
  cases hfork
  obtain ⟨harranged, hform⟩ := hcalled [(0, 1), (2, 2), (0, 3)] _ _
    (.cons _ rfl (openFile_eq rfl) (.cons _ rfl (openFile_eq rfl)
      (.cons _ rfl (openFile_eq rfl) (.nil _ _))))
  refine ⟨_, _, _, hcallee, _, _, harranged, hform, ?_, ?_, ?_⟩
  · rw [harranged.endpoints]
    rfl
  · rw [harranged.endpoints]
    rfl
  · rw [harranged.endpoints]
    rfl

end Eval

end Conduit
