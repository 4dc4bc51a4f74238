import Mathlib.Tactic.Common
import Conduit.Value

/-!
# Reading Printed Values

A value made of texts and lists can be read back from its printed form, so two such values that are
printed alike are equal.  The reader takes one byte at a time.  It knows the lists that are open and
the word it is in, and a word without quotes ends only at a byte that cannot belong to it.  What
follows a printed value is therefore read as if the value had been put into the innermost list
already; the induction over values carries this for any continuation that starts with such a byte.

Spaces and brackets inside quotes belong to the quoted text.  A single quote there is the end of the
text or the first half of a doubled quote, which the next byte decides.
-/

namespace Conduit.Value

open Text.Quoted (tick isBare isBareword double quote)

/-- The value is made of texts and lists. -/
inductive IsData : Value → Prop where
  | text (content : Bytes) : IsData (.text content)
  | list {items : List Value} (hitems : ∀ item ∈ items, IsData item) : IsData (.list items)

/-! ## The reader -/

/-- The byte that opens a list. -/
def opening : UInt8 := 0x5B

/-- The byte that closes a list. -/
def closing : UInt8 := 0x5D

/-- What a reader is in the middle of: nothing, a word without quotes, a quoted word, or a quoted
word of which the last byte was a single quote.  A word comes with its content so far. -/
inductive Position where
  | between
  | bare (sofar : Bytes)
  | quoted (sofar : Bytes)
  | ticked (sofar : Bytes)

/-- A reader of printed values: the items of the innermost open list, those of the lists around it
from the inside out, and its position.  The outermost of the lists is the whole text. -/
structure Reader where
  items : List Value
  outer : List (List Value)
  position : Position

namespace Reader

/-- The end of the word that is under way.  A quoted word needs its last quote. -/
def settle (r : Reader) : Option Reader :=
  match r.position with
  | .between => some r
  | .bare content | .ticked content => some ⟨r.items ++ [.text content], r.outer, .between⟩
  | .quoted _ => none

/-- The reader behind a byte that belongs to no word under way. -/
def start (r : Reader) (b : UInt8) : Option Reader :=
  if b = Bytes.space then some r
  else if b = opening then some ⟨[], r.items :: r.outer, .between⟩
  else if b = closing then
    match r.outer with
    | [] => none
    | items :: outer => some ⟨items ++ [.list r.items], outer, .between⟩
  else if b = tick then some { r with position := .quoted [] }
  else if isBare b then some { r with position := .bare [b] }
  else none

/-- The reader behind a byte. -/
def step (r : Reader) (b : UInt8) : Option Reader :=
  match r.position with
  | .between => r.start b
  | .bare content =>
    if isBare b then some { r with position := .bare (content ++ [b]) }
    else r.settle.bind (·.start b)
  | .quoted content =>
    if b = tick then some { r with position := .ticked content }
    else some { r with position := .quoted (content ++ [b]) }
  | .ticked content =>
    if b = tick then some { r with position := .quoted (content ++ [tick]) }
    else r.settle.bind (·.start b)

/-- The reader behind a text that ends all words. -/
def run : Reader → Bytes → Option Reader
  | r, [] => r.settle
  | r, b :: rest => (r.step b).bind (·.run rest)

end Reader

/-- The only value that a text shows. -/
def read (text : Bytes) : Option Value :=
  match Reader.run ⟨[], [], .between⟩ text with
  | some ⟨[v], [], _⟩ => some v
  | _ => none

/-! ## Words -/

/-- No word goes on into the text. -/
def Delimited (text : Bytes) : Prop := ∀ b ∈ text.head?, isBare b = false ∧ b ≠ tick

theorem delimited_nil : Delimited [] := by
  intro b hb
  cases hb

theorem delimited_space (rest : Bytes) : Delimited (Bytes.space :: rest) := by
  intro b hb
  cases hb
  decide

theorem delimited_closing (rest : Bytes) : Delimited (closing :: rest) := by
  intro b hb
  cases hb
  decide

namespace Reader

variable (items : List Value) (outer : List (List Value))

@[simp] theorem run_space (rest : Bytes) :
    run ⟨items, outer, .between⟩ (Bytes.space :: rest) = run ⟨items, outer, .between⟩ rest :=
  rfl

@[simp] theorem run_opening (rest : Bytes) :
    run ⟨items, outer, .between⟩ (opening :: rest) = run ⟨[], items :: outer, .between⟩ rest :=
  rfl

@[simp] theorem run_closing (inner : List Value) (rest : Bytes) :
    run ⟨inner, items :: outer, .between⟩ (closing :: rest) =
      run ⟨items ++ [.list inner], outer, .between⟩ rest :=
  rfl

@[simp] theorem run_tick (rest : Bytes) :
    run ⟨items, outer, .between⟩ (tick :: rest) = run ⟨items, outer, .quoted []⟩ rest :=
  rfl

theorem run_between_bare {b : UInt8} (hb : isBare b = true) (rest : Bytes) :
    run ⟨items, outer, .between⟩ (b :: rest) = run ⟨items, outer, .bare [b]⟩ rest := by
  have hspecial : ∀ mark, isBare mark = false → b ≠ mark := by
    rintro mark hmark rfl
    rw [hb] at hmark
    cases hmark
  have hspace := hspecial Bytes.space (by decide)
  have hopening := hspecial opening (by decide)
  have hclosing := hspecial closing (by decide)
  have htick := hspecial tick (by decide)
  have hstep : step ⟨items, outer, .between⟩ b = some ⟨items, outer, .bare [b]⟩ := by
    rw [step, start, if_neg hspace, if_neg hopening, if_neg hclosing, if_neg htick, if_pos hb]
  rw [run, hstep, Option.bind_some]

theorem run_bare (sofar : Bytes) {content : Bytes} (h : content.all isBare = true)
    (rest : Bytes) :
    run ⟨items, outer, .bare sofar⟩ (content ++ rest) =
      run ⟨items, outer, .bare (sofar ++ content)⟩ rest := by
  induction content generalizing sofar with
  | nil => rw [List.nil_append, List.append_nil]
  | cons b content ih =>
    obtain ⟨hb, hcontent⟩ := Bool.and_eq_true_iff.mp h
    have hstep : step ⟨items, outer, .bare sofar⟩ b =
        some ⟨items, outer, .bare (sofar ++ [b])⟩ := if_pos hb
    rw [List.cons_append, run, hstep, Option.bind_some, ih _ hcontent, List.append_assoc,
      List.singleton_append]

/-- A quote inside the content is passed in two steps and leaves the word under way. -/
theorem run_quoted (sofar content rest : Bytes) :
    run ⟨items, outer, .quoted sofar⟩ (double content ++ tick :: rest) =
      run ⟨items, outer, .ticked (sofar ++ content)⟩ rest := by
  induction content generalizing sofar with
  | nil =>
    rw [List.append_nil]
    rfl
  | cons b content ih =>
    rw [double]
    split
    case isTrue hb =>
      have hsteps : ∀ text, run ⟨items, outer, .quoted sofar⟩ (tick :: tick :: text) =
          run ⟨items, outer, .quoted (sofar ++ [tick])⟩ text := fun _ ↦ rfl
      rw [List.cons_append, List.cons_append, hsteps, ih, hb, List.append_assoc,
        List.singleton_append]
    case isFalse hb =>
      have hstep : step ⟨items, outer, .quoted sofar⟩ b =
          some ⟨items, outer, .quoted (sofar ++ [b])⟩ := if_neg hb
      rw [List.cons_append, run, hstep, Option.bind_some, ih, List.append_assoc,
        List.singleton_append]

/-- Where no word goes on, a word without quotes has ended, and so has a word whose last byte was a
quote. -/
theorem run_of_delimited {position : Position} {content : Bytes}
    (hposition : position = .bare content ∨ position = .ticked content) {rest : Bytes}
    (hrest : Delimited rest) :
    run ⟨items, outer, position⟩ rest =
      run ⟨items ++ [.text content], outer, .between⟩ rest := by
  cases rest with
  | nil => rcases hposition with rfl | rfl <;> rfl
  | cons b rest =>
    obtain ⟨hbare, htick⟩ := hrest b rfl
    have hstep : step ⟨items, outer, position⟩ b =
        start ⟨items ++ [.text content], outer, .between⟩ b := by
      rcases hposition with rfl | rfl
      · exact if_neg (Bool.eq_false_iff.mp hbare)
      · exact if_neg htick
    rw [run, hstep]
    rfl

/-- The written form of a text is read as this text. -/
theorem run_quote (content : Bytes) {rest : Bytes} (hrest : Delimited rest) :
    run ⟨items, outer, .between⟩ (quote content ++ rest) =
      run ⟨items ++ [.text content], outer, .between⟩ rest := by
  rw [quote]
  split
  case isTrue h =>
    match content with
    | [] => cases h
    | b :: content =>
      obtain ⟨-, hall⟩ := Bool.and_eq_true_iff.mp h
      obtain ⟨hb, hcontent⟩ := Bool.and_eq_true_iff.mp hall
      rw [List.cons_append, run_between_bare items outer hb, run_bare items outer _ hcontent,
        List.singleton_append, run_of_delimited items outer (.inl rfl) hrest]
  case isFalse =>
    rw [List.cons_append, List.append_assoc, List.singleton_append, run_tick, run_quoted,
      List.nil_append, run_of_delimited items outer (.inr rfl) hrest]

end Reader

/-! ## Values -/

/-- The printed form of a value is read as this value, whatever comes behind it. -/
def ReadsBack (v : Value) : Prop :=
  ∀ (items : List Value) (outer : List (List Value)) (rest : Bytes), Delimited rest →
    Reader.run ⟨items, outer, .between⟩ (v.repr ++ rest) =
      Reader.run ⟨items ++ [v], outer, .between⟩ rest

theorem run_reprItems {inner : List Value} (hinner : ∀ item ∈ inner, item.ReadsBack)
    (items : List Value) (outer : List (List Value)) {rest : Bytes} (hrest : Delimited rest) :
    Reader.run ⟨items, outer, .between⟩ (reprItems inner ++ rest) =
      Reader.run ⟨items ++ inner, outer, .between⟩ rest := by
  induction inner generalizing items with
  | nil => rw [reprItems, List.nil_append, List.append_nil]
  | cons item others ih =>
    obtain ⟨hitem, hothers⟩ := List.forall_mem_cons.mp hinner
    match others with
    | [] => rw [reprItems, hitem items outer rest hrest]
    | other :: others =>
      calc Reader.run ⟨items, outer, .between⟩ (reprItems (item :: other :: others) ++ rest)
          = Reader.run ⟨items, outer, .between⟩
              (item.repr ++ Bytes.space :: (reprItems (other :: others) ++ rest)) := by
            rw [reprItems, List.append_assoc, List.append_assoc]
            rfl
            exact List.cons_ne_nil _ _
        _ = Reader.run ⟨items ++ [item], outer, .between⟩
              (reprItems (other :: others) ++ rest) := by
            rw [hitem items outer _ (delimited_space _), Reader.run_space]
        _ = Reader.run ⟨items ++ item :: other :: others, outer, .between⟩ rest := by
            rw [ih hothers, List.append_assoc, List.singleton_append]

theorem readsBack_list {inner : List Value} (hinner : ∀ item ∈ inner, item.ReadsBack) :
    (Value.list inner).ReadsBack := by
  intro items outer rest hrest
  calc Reader.run ⟨items, outer, .between⟩ ((Value.list inner).repr ++ rest)
      = Reader.run ⟨items, outer, .between⟩ (opening :: (reprItems inner ++ closing :: rest)) := by
        rw [repr, List.append_assoc, List.append_assoc]
        rfl
    _ = Reader.run ⟨inner, items :: outer, .between⟩ (closing :: rest) := by
        rw [Reader.run_opening, run_reprItems hinner _ _ (delimited_closing rest),
          List.nil_append]
    _ = Reader.run ⟨items ++ [.list inner], outer, .between⟩ rest :=
        Reader.run_closing items outer inner rest

theorem IsData.readsBack {v : Value} (h : v.IsData) : v.ReadsBack := by
  induction h with
  | text content => exact fun items outer _ hrest ↦ Reader.run_quote items outer content hrest
  | list _ ih => exact readsBack_list ih

theorem IsData.read_repr {v : Value} (h : v.IsData) : read v.repr = some v := by
  have hrun := h.readsBack [] [] [] delimited_nil
  rw [List.append_nil] at hrun
  rw [read, hrun]
  rfl

/-- A value made of texts and lists is read back from its printed form, a text from its written
form, and values that are printed alike are equal. -/
theorem repr_readable :
    (∀ v : Value, v.IsData → read v.repr = some v) ∧
    (∀ content : Bytes, read (quote content) = some (.text content)) ∧
    ∀ v other : Value, v.IsData → other.IsData → v.repr = other.repr → v = other := by
  refine ⟨fun _ hv ↦ hv.read_repr, fun content ↦ (IsData.text content).read_repr, ?_⟩
  intro v other hv hother heq
  have hread : some v = some other := by rw [← hv.read_repr, heq, hother.read_repr]
  exact Option.some.inj hread

/-- A list of a text with brackets and a space, a text with a single quote, the empty text and the
empty list. -/
def tangled : Value :=
  .list [.text (utf8 "] ["), .text (utf8 "it's"), .text [], .list []]

theorem repr_readable_tangled :
    tangled.IsData ∧ tangled.repr = utf8 "['] [' 'it''s' '' []]" ∧
      read (utf8 "['] [' 'it''s' '' []]") = some tangled := by
  have hdata : tangled.IsData := by
    apply IsData.list
    simp only [List.forall_mem_cons]
    exact ⟨.text _, .text _, .text _, .list nofun, nofun⟩
  have hrepr : tangled.repr = utf8 "['] [' 'it''s' '' []]" := by decide +kernel
  exact ⟨hdata, hrepr, hrepr ▸ repr_readable.1 tangled hdata⟩

end Conduit.Value
