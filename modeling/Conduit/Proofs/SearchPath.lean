import Conduit.Proofs.Environment
import Conduit.Proofs.Writes

/-!
# The Search Path

The search path is the text that the environment has under `PATH`, and the variable of the search path
reads as the segments of this text between colons.  A list of texts that is written to the variable
is joined with colons.  An empty item leaves no trace at the front, and two colons or one at an end
of the text elsewhere, and is dropped in any case when the text is read.  A list in which some item is
no text or has a colon in it is refused, wherever the item stands, before the environment is
touched.
-/

namespace Conduit

open Bytes (Segments colon)

/-! ## Joining and splitting -/

namespace Text.PathList

theorem segments_split (text : Bytes) : Segments colon text (split text) :=
  Bytes.segments_pieces colon text

/-- A directory of a search path is not empty, has no colon in it and is part of the text. -/
theorem of_mem_split {text directory : Bytes} (h : directory ∈ split text) :
    directory ≠ [] ∧ colon ∉ directory ∧ directory ⊆ text := by
  obtain ⟨located, hlocated, -, hmem⟩ := segments_split text
  rw [← hlocated] at h
  obtain ⟨⟨offset, piece⟩, hentry, rfl⟩ := List.mem_map.mp h
  obtain ⟨before, after, rfl, -, hsegment⟩ := (hmem offset piece).mp hentry
  refine ⟨hsegment.nonempty, hsegment.unmarked, fun b hb ↦ ?_⟩
  exact List.mem_append_left _ (List.mem_append_right _ hb)

theorem split_append (text rest : Bytes) :
    split (text ++ colon :: rest) = split text ++ split rest := by
  rw [split, Bytes.pieces_append, List.filter_append]
  rfl

theorem split_of_notMem {directory : Bytes} (h : colon ∉ directory) :
    split directory = [directory].filter fun piece ↦ !piece.isEmpty := by
  rw [split, Bytes.pieces_of_notMem h]

theorem split_extend (written : Bytes) {directory : Bytes} (h : colon ∉ directory) :
    split (extend written directory) =
      split written ++ [directory].filter fun piece ↦ !piece.isEmpty := by
  rw [← split_of_notMem h, extend]
  cases written with
  | nil => rfl
  | cons b written => exact split_append _ _

/-- Of directories that are written one after another the nonempty ones are read back. -/
theorem split_foldl_extend (written : Bytes) {directories : List Bytes}
    (h : ∀ directory ∈ directories, colon ∉ directory) :
    split (directories.foldl extend written) =
      split written ++ directories.filter fun piece ↦ !piece.isEmpty := by
  induction directories generalizing written with
  | nil => exact (List.append_nil _).symm
  | cons directory rest ih =>
    obtain ⟨hdirectory, hrest⟩ := List.forall_mem_cons.mp h
    calc split (rest.foldl extend (extend written directory))
        = split (extend written directory) ++ rest.filter fun piece ↦ !piece.isEmpty :=
          ih _ hrest
      _ = split written ++ (directory :: rest).filter fun piece ↦ !piece.isEmpty := by
          rw [split_extend written hdirectory, List.append_assoc, ← List.filter_append,
            List.singleton_append]

/-- What is written consists of the bytes of the directories and colons. -/
theorem mem_foldl_extend {b : UInt8} (hb : b ≠ colon) {written : Bytes} {directories : List Bytes}
    (h : b ∈ directories.foldl extend written) :
    b ∈ written ∨ ∃ directory ∈ directories, b ∈ directory := by
  induction directories generalizing written with
  | nil => exact .inl h
  | cons directory rest ih =>
    rcases ih h with hmem | ⟨other, hother, hmem⟩
    · rw [extend] at hmem
      split at hmem
      · exact .inr ⟨directory, List.mem_cons_self, hmem⟩
      · rcases List.mem_append.mp hmem with hmem | hmem
        · exact .inl hmem
        · exact .inr ⟨directory, List.mem_cons_self, (List.mem_cons.mp hmem).resolve_left hb⟩
    · exact .inr ⟨other, List.mem_cons_of_mem _ hother, hmem⟩

end Text.PathList

/-! ## Values for the search path -/

namespace Value

/-- A value that the search path does not take: a function, or a list in which some item is no text
or a text with a colon. -/
def RefusedByPaths : Value → Prop
  | .fn _ => True
  | .list items => ∃ item ∈ items, ∀ directory, item = .text directory → colon ∈ directory
  | _ => False

/-- The directories that a value stands for as a search path: the segments of a text between colons,
and the nonempty items of a list of texts. -/
inductive Directories : Value → List Bytes → Prop where
  | text {content : Bytes} {directories : List Bytes} (h : Segments colon content directories) :
      Directories (.text content) directories
  | list (items : List Bytes) :
      Directories (.list (items.map .text)) (items.filter fun item ↦ !item.isEmpty)

theorem Directories.eq_filter {items directories : List Bytes}
    (h : Directories (.list (items.map .text)) directories) :
    directories = items.filter fun item ↦ !item.isEmpty := by
  generalize hv : Value.list (items.map .text) = v at h
  cases h with
  | text h => cases hv
  | list others =>
    have hinjective : Function.Injective Value.text := fun _ _ heq ↦ Value.text.inj heq
    rw [List.map_injective_iff.mpr hinjective (Value.list.inj hv)]

/-- The value has no zero byte in it if it is a text, nor in its items. -/
def ZeroFree : Value → Prop
  | .text content => 0 ∉ content
  | .list items => ∀ content, .text content ∈ items → 0 ∉ content
  | _ => True

theorem zeroFree_list {items : List Bytes} :
    (Value.list (items.map .text)).ZeroFree ↔ ∀ item ∈ items, 0 ∉ item := by
  refine ⟨fun h item hitem ↦ h item (List.mem_map_of_mem hitem), fun h content hcontent ↦ ?_⟩
  obtain ⟨item, hitem, heq⟩ := List.mem_map.mp hcontent
  exact Value.text.inj heq ▸ h item hitem

theorem refusedByPaths_list {items : List Bytes} :
    (Value.list (items.map .text)).RefusedByPaths ↔ ∃ item ∈ items, colon ∈ item := by
  constructor
  · rintro ⟨v, hv, hcolon⟩
    obtain ⟨item, hitem, rfl⟩ := List.mem_map.mp hv
    exact ⟨item, hitem, hcolon item rfl⟩
  · rintro ⟨item, hitem, hcolon⟩
    refine ⟨.text item, List.mem_map_of_mem hitem, fun directory heq ↦ ?_⟩
    exact Value.text.inj heq ▸ hcolon

/-- A list is refused unless it is one of texts without a colon. -/
theorem exists_map_text {items : List Value} (h : ¬RefusedByPaths (.list items)) :
    ∃ directories : List Bytes, items = directories.map .text ∧
      ∀ directory ∈ directories, colon ∉ directory := by
  induction items with
  | nil => exact ⟨[], rfl, nofun⟩
  | cons item rest ih =>
    have hitem : ∃ directory, item = .text directory ∧ colon ∉ directory := by
      by_contra hnone
      exact h ⟨item, List.mem_cons_self, fun directory heq ↦
        by_contra fun hcolon ↦ hnone ⟨directory, heq, hcolon⟩⟩
    have hrest : ¬RefusedByPaths (.list rest) := fun ⟨other, hother, hrefused⟩ ↦
      h ⟨other, List.mem_cons_of_mem _ hother, hrefused⟩
    obtain ⟨directory, rfl, hdirectory⟩ := hitem
    obtain ⟨directories, rfl, hdirectories⟩ := ih hrest
    exact ⟨directory :: directories, rfl, List.forall_mem_cons.mpr ⟨hdirectory, hdirectories⟩⟩

end Value

namespace Variable

open Text.PathList (extend split)

theorem joinPaths_map_text (written : Bytes) {directories : List Bytes}
    (h : ∀ directory ∈ directories, colon ∉ directory) :
    joinPaths written (directories.map .text) = .ok (directories.foldl extend written) := by
  induction directories generalizing written with
  | nil => rfl
  | cons directory rest ih =>
    obtain ⟨hdirectory, hrest⟩ := List.forall_mem_cons.mp h
    have hcontains : directory.contains colon = false := by simpa using hdirectory
    have hstep : joinPaths written ((directory :: rest).map .text) =
        if directory.contains colon then
          .error ⟨.type, utf8 "path element cannot contain ':'", none⟩
        else joinPaths (extend written directory) (rest.map .text) := rfl
    rw [hstep, hcontains, if_neg Bool.false_ne_true, ih _ hrest]
    rfl

/-- Whatever has been joined before, an item that is no text or has a colon in it is refused. -/
theorem joinPaths_refused (written : Bytes) {items : List Value}
    (h : ∃ item ∈ items, ∀ directory, item = .text directory → colon ∈ directory) :
    ∃ e, joinPaths written items = .error e ∧ e.kind = .type := by
  induction items generalizing written with
  | nil =>
    obtain ⟨item, hitem, -⟩ := h
    cases hitem
  | cons first rest ih =>
    cases first with
    | text directory =>
      have hstep : joinPaths written (.text directory :: rest) =
          if directory.contains colon then
            .error ⟨.type, utf8 "path element cannot contain ':'", none⟩
          else joinPaths (extend written directory) rest := rfl
      rw [hstep]
      split
      case isTrue => exact ⟨_, rfl, rfl⟩
      case isFalse hcolon =>
        refine ih _ ?_
        obtain ⟨item, hitem, hbad⟩ := h
        rcases List.mem_cons.mp hitem with rfl | hitem
        · exact absurd (List.contains_iff_mem.mpr (hbad directory rfl)) hcolon
        · exact ⟨item, hitem, hbad⟩
    | _ => exact ⟨_, rfl, rfl⟩

theorem pathsText_refused {v : Value} (h : v.RefusedByPaths) :
    ∃ e, pathsText v = .error e ∧ e.kind = .type := by
  cases v with
  | fn f => exact ⟨_, rfl, rfl⟩
  | list items => exact joinPaths_refused [] h
  | _ => cases h

/-- A value that is not refused gives the search path a text whose directories are its own. -/
theorem pathsText_accepted {v : Value} (habsent : v ≠ .absent) (h : ¬v.RefusedByPaths)
    (hzero : v.ZeroFree) :
    ∃ content, pathsText v = .ok content ∧ 0 ∉ content ∧ v.Directories (split content) := by
  cases v with
  | absent => exact absurd rfl habsent
  | text content => exact ⟨content, rfl, hzero, .text (Text.PathList.segments_split content)⟩
  | list items =>
    obtain ⟨directories, rfl, hdirectories⟩ := Value.exists_map_text h
    refine ⟨_, joinPaths_map_text [] hdirectories, fun hmem ↦ ?_, ?_⟩
    · rcases Text.PathList.mem_foldl_extend (by decide) hmem with hmem | ⟨directory, hin, hmem⟩
      · cases hmem
      · exact hzero directory (List.mem_map_of_mem hin) hmem
    · rw [Text.PathList.split_foldl_extend [] hdirectories]
      exact .list directories
  | fn f => exact absurd trivial h

end Variable

/-! ## Two views of one text -/

theorem settable_path : Host.Environment.Settable (utf8 "PATH") := ⟨by decide, by decide, by decide⟩

/-- Seen from the environment the search path is a text, and seen from a place the list of the
directories that are its segments. -/
structure World.ShowsPath (w : World) (place : Place) (text : Bytes) (directories : List Bytes) :
    Prop where
  segments : Segments colon text directories
  environment : Act.readPlace (.env (utf8 "PATH")) w = (.done (.text text), w)
  paths : Act.readPlace place w = (.done (.list (directories.map .text)), w)

/-- What is shown is the search path of the state. -/
theorem World.ShowsPath.directories_eq {w : World} {place : Place} {text : Bytes}
    {directories : List Bytes} (h : w.ShowsPath place text directories) :
    directories = w.searchPath := by
  have htext : w.environment.get (utf8 "PATH") = text := by
    have hread := h.environment
    injection hread with hread
    injection hread with hread
    exact Value.text.inj hread
  rw [searchPath, htext]
  exact h.segments.unique (Text.PathList.segments_split text)

namespace Act

open World (ShowsPath)

variable {w : World} {place : Place} {v : Value}

theorem readPlace_paths (hplace : w.variableAt place = .paths) :
    readPlace place w = (.done (.list (w.searchPath.map .text)), w) := by
  rw [readPlace, hplace]
  rfl

/-- Where the search path stands it is shown. -/
theorem showsPath (hplace : w.variableAt place = .paths) :
    w.ShowsPath place (w.environment.get (utf8 "PATH")) w.searchPath where
  segments := Text.PathList.segments_split _
  environment := rfl
  paths := readPlace_paths hplace

/-- What the environment has been given under `PATH` is shown. -/
theorem setEnv_path (hproper : w.environment.Proper) (hplace : w.variableAt place = .paths)
    {content : Bytes} (hcontent : 0 ∉ content) :
    ∃ w', setEnv (utf8 "PATH") content w = (.done (), w') ∧
      w'.ShowsPath place content (Text.PathList.split content) := by
  obtain ⟨environment, hset, hget⟩ := hproper.get_set? settable_path content
  rw [Host.Environment.untilZero_eq_self hcontent] at hget
  have hshown := showsPath ((World.variableAt_environment w environment place).trans hplace)
  rw [World.searchPath, hget] at hshown
  refine ⟨{ w with environment }, ?_, hshown⟩
  rw [setEnv, hset]

theorem writePlace_paths (hplace : w.variableAt place = .paths) (habsent : v ≠ .absent) :
    writePlace place v w =
      (ofExcept (Variable.pathsText v) >>= fun content ↦ setEnv (utf8 "PATH") content) w := by
  have hkind : ∃ kind, kindOf v = pure kind := by
    cases v with
    | absent => exact absurd rfl habsent
    | _ => exact ⟨_, rfl⟩
  obtain ⟨kind, hkind⟩ := hkind
  rw [writePlace, world_bind, hplace, hkind]
  rfl

/-- The search path does not take a function, nor a list with an item that is no text or has a colon
in it, and nothing is changed. -/
theorem writePlace_refused (hplace : w.variableAt place = .paths) (hv : v.RefusedByPaths) :
    ∃ e, writePlace place v w = (.raised e, w) ∧ e.kind = .type := by
  have habsent : v ≠ .absent := by
    rintro rfl
    exact hv
  obtain ⟨e, he, hkind⟩ := Variable.pathsText_refused hv
  refine ⟨e, ?_, hkind⟩
  rw [writePlace_paths hplace habsent, he]
  rfl

/-- Any other value is taken, and its directories are shown. -/
theorem writePlace_accepted (hproper : w.environment.Proper) (hplace : w.variableAt place = .paths)
    (habsent : v ≠ .absent) (hzero : v.ZeroFree) (hv : ¬v.RefusedByPaths) :
    ∃ w' text directories, writePlace place v w = (.done (), w') ∧ v.Directories directories ∧
      w'.ShowsPath place text directories := by
  obtain ⟨content, hcontent, hfree, hdirectories⟩ :=
    Variable.pathsText_accepted habsent hv hzero
  obtain ⟨w', hset, hshown⟩ := setEnv_path hproper hplace hfree
  refine ⟨w', content, _, ?_, hdirectories, hshown⟩
  rw [writePlace_paths hplace habsent, hcontent]
  exact hset

/-- A text that is written to the environment is shown. -/
theorem writePlace_environment (hproper : w.environment.Proper)
    (hplace : w.variableAt place = .paths) {content : Bytes} (hcontent : 0 ∉ content) :
    ∃ w' directories, writePlace (.env (utf8 "PATH")) (.text content) w = (.done (), w') ∧
      w'.ShowsPath place content directories := by
  obtain ⟨w', hset, hshown⟩ := setEnv_path hproper hplace hcontent
  exact ⟨w', _, hset, hshown⟩

/-- The search path reads as before when it is given what it reads as. -/
theorem writePlace_own (hproper : w.environment.Proper) (hplace : w.variableAt place = .paths)
    (hv : readPlace place w = (.done v, w)) :
    ∃ w', writePlace place v w = (.done (), w') ∧ readPlace place w' = (.done v, w') := by
  rw [readPlace_paths hplace] at hv
  obtain rfl : v = .list (w.searchPath.map .text) := by
    injection hv with hv
    injection hv with hv
    exact hv.symm
  have hmem : ∀ directory ∈ w.searchPath, directory ≠ [] ∧ colon ∉ directory ∧
      directory ⊆ w.environment.get (utf8 "PATH") := fun _ ↦ Text.PathList.of_mem_split
  have haccepted : ¬(Value.list (w.searchPath.map .text)).RefusedByPaths := by
    rw [Value.refusedByPaths_list]
    rintro ⟨directory, hdirectory, hcolon⟩
    exact (hmem directory hdirectory).2.1 hcolon
  have hzero : (Value.list (w.searchPath.map .text)).ZeroFree := by
    rw [Value.zeroFree_list]
    intro directory hdirectory hzero
    exact hproper.zero_notMem_get settable_path ((hmem directory hdirectory).2.2 hzero)
  obtain ⟨w', text, directories, hwrite, hdirectories, hshown⟩ :=
    writePlace_accepted hproper hplace (by simp) hzero haccepted
  have hsame : directories = w.searchPath := by
    rw [hdirectories.eq_filter]
    refine List.filter_eq_self.mpr fun directory h ↦ ?_
    simpa using (hmem directory h).1
  exact ⟨w', hwrite, hsame ▸ hshown.paths⟩

end Act

end Conduit
