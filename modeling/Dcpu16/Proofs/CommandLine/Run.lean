/-
What a run leaves behind. It writes one file at most, at the output path, and does so exactly if it succeeds and was
not asked for help; the bytes are then the words of the image that a new assembler makes of the input. What is printed
has no part in this.
-/
import Dcpu16.CommandLine.Run
import Dcpu16.Proofs.CommandLine.Arguments
import Dcpu16.Proofs.Image.Strict
import Dcpu16.Proofs.Session
import Dcpu16.Proofs.Source.Accepted

namespace Dcpu16

/-! ## Bytes -/

namespace Word

/-- Reads words of two bytes each, high byte first. -/
def ofBytes? : Text → Option (List Word)
  | [] => some []
  | [_] => none
  | high :: low :: rest => (ofBytes? rest).map ((high.toNat * 256 + low.toNat).toUInt16 :: ·)

theorem ofBytes?_bytes (w : Word) (rest : Text) : ofBytes? (w.bytes ++ rest) = (ofBytes? rest).map (w :: ·) := by
  have hword : ((w >>> 8).toUInt8.toNat * 256 + w.toUInt8.toNat).toUInt16 = w := by
    have hw := w.toNat_lt
    have hhigh : (w >>> 8).toUInt8.toNat = w.toNat / 256 := by
      have hshift : (w >>> 8).toNat = w.toNat / 256 := by
        rw [UInt16.toNat_shiftRight, Nat.shiftRight_eq_div_pow]
        rfl
      rw [UInt16.toNat_toUInt8, hshift]
      exact Nat.mod_eq_of_lt (by omega)
    have hsum : w.toNat / 256 * 256 + w.toNat % 256 = w.toNat := by omega
    rw [hhigh, UInt16.toNat_toUInt8, hsum]
    exact UInt16.ofNat_toNat
  rw [bytes, List.cons_append, List.cons_append, List.nil_append, ofBytes?, hword]

end Word

/-- The words of an image are read from its bytes. -/
theorem Image.ofBytes?_bytes (i : Image) : Word.ofBytes? i.bytes = some i.words ∧ i.bytes.length = 2 * i.words.length := by
  rw [bytes]
  induction i.words with
  | nil => exact ⟨rfl, rfl⟩
  | cons w ws ih =>
    rw [List.flatMap_cons, Word.ofBytes?_bytes, ih.1, List.length_append, ih.2, List.length_cons]
    refine ⟨rfl, ?_⟩
    rw [show w.bytes.length = 2 from rfl]
    omega

/-! ## Paths and files -/

namespace Path

/-- A path in two parts, the second being its extension: from the last dot of the last name on, or nothing if that
name has no dot. -/
def IsExtension (stem extension : Text) : Prop :=
  (∃ t, extension = 46 :: t ∧ 46 ∉ t ∧ 47 ∉ t) ∨ extension = [] ∧ ∀ before t, stem = before ++ 46 :: t → 47 ∈ t

/-- A path has no dot and no slash, or it has a last one of them. -/
theorem last_mark (path : Text) :
    (46 ∉ path ∧ 47 ∉ path) ∨
      ∃ before mark after, path = before ++ mark :: after ∧ (mark = 46 ∨ mark = 47) ∧ 46 ∉ after ∧ 47 ∉ after := by
  induction path with
  | nil => exact .inl ⟨List.not_mem_nil, List.not_mem_nil⟩
  | cons b path ih =>
    rcases ih with ⟨hdot, hslash⟩ | ⟨before, mark, after, rfl, hmark, hafter⟩
    · by_cases hb : b = 46 ∨ b = 47
      · exact .inr ⟨[], b, path, rfl, hb, hdot, hslash⟩
      · rw [not_or] at hb
        exact .inl ⟨by simp [Ne.symm hb.1, hdot], by simp [Ne.symm hb.2, hslash]⟩
    · exact .inr ⟨b :: before, mark, after, rfl, hmark, hafter⟩

/-- Going back from the end, the bytes up to a mark are passed over. -/
theorem dropWhile_back (front : Text) {back : Text} (hdot : 46 ∉ back) (hslash : 47 ∉ back) :
    (front ++ back).reverse.dropWhile (fun b => ! (b == Text.byte '.' || b == Text.byte '/')) =
      front.reverse.dropWhile (fun b => ! (b == Text.byte '.' || b == Text.byte '/')) := by
  have hback : ∀ b ∈ back.reverse, (! (b == Text.byte '.' || b == Text.byte '/')) = true := by
    intro b hb
    rw [List.mem_reverse] at hb
    have hb46 : b ≠ Text.byte '.' := by
      rintro rfl
      exact hdot hb
    have hb47 : b ≠ Text.byte '/' := by
      rintro rfl
      exact hslash hb
    simp [hb46, hb47]
  rw [List.reverse_append, List.dropWhile_append_of_pos hback]

theorem dropWhile_mark (before : Text) {mark : UInt8} {after : Text} (hmark : mark = 46 ∨ mark = 47) (hdot : 46 ∉ after)
    (hslash : 47 ∉ after) :
    (before ++ mark :: after).reverse.dropWhile (fun b => ! (b == Text.byte '.' || b == Text.byte '/')) =
      mark :: before.reverse := by
  have happend : before ++ mark :: after = (before ++ [mark]) ++ after := by simp
  rw [happend, dropWhile_back _ hdot hslash, List.reverse_concat]
  rcases hmark with rfl | rfl
  · exact List.dropWhile_cons_of_neg (by decide)
  · exact List.dropWhile_cons_of_neg (by decide)

theorem stem_plain {path : Text} (hdot : 46 ∉ path) (hslash : 47 ∉ path) : stem path = path := by
  have hback := dropWhile_back [] hdot hslash
  rw [List.nil_append] at hback
  unfold stem
  dsimp only
  rw [hback]
  simp

theorem stem_dot (before : Text) {after : Text} (hdot : 46 ∉ after) (hslash : 47 ∉ after) :
    stem (before ++ 46 :: after) = before := by
  unfold stem
  dsimp only
  rw [dropWhile_mark before (.inl rfl) hdot hslash]
  exact List.reverse_reverse before

theorem stem_slash (before : Text) {after : Text} (hdot : 46 ∉ after) (hslash : 47 ∉ after) :
    stem (before ++ 47 :: after) = before ++ 47 :: after := by
  unfold stem
  dsimp only
  rw [dropWhile_mark before (.inr rfl) hdot hslash]
  simp

/-- The stem is the path without its extension. -/
theorem exists_extension (path : Text) :
    ∃ extension, path = stem path ++ extension ∧ IsExtension (stem path) extension := by
  rcases last_mark path with ⟨hdot, hslash⟩ | ⟨before, mark, after, rfl, rfl | rfl, hdot, hslash⟩
  · rw [stem_plain hdot hslash]
    refine ⟨[], (List.append_nil _).symm, .inr ⟨rfl, fun before t h => ?_⟩⟩
    exact absurd (h ▸ List.mem_append_cons_self) hdot
  · rw [stem_dot before hdot hslash]
    exact ⟨46 :: after, rfl, .inl ⟨after, rfl, hdot, hslash⟩⟩
  · rw [stem_slash before hdot hslash]
    refine ⟨[], (List.append_nil _).symm, .inr ⟨rfl, fun before' t h => ?_⟩⟩
    -- the slash stands behind every dot
    rcases append_eq_append_cons h with ⟨mid, -, hrest⟩ | ⟨mid, hbefore⟩
    · have hmem : 46 ∈ 47 :: after := hrest ▸ List.mem_append_cons_self
      exact absurd hmem (by simp [hdot])
    · rw [hbefore, List.append_assoc, List.append_cancel_left_eq] at h
      rw [← (List.cons.inj h).2]
      exact List.mem_append_cons_self

/-- There is no other way to cut off an extension. -/
theorem stem_eq {before extension : Text} (h : IsExtension before extension) : stem (before ++ extension) = before := by
  rcases h with ⟨t, rfl, hdot, hslash⟩ | ⟨rfl, hslash⟩
  · exact stem_dot before hdot hslash
  · rw [List.append_nil]
    obtain ⟨extension, hbefore, ⟨t, rfl, -, hnot⟩ | ⟨rfl, -⟩⟩ := exists_extension before
    · exact absurd (hslash _ t hbefore) hnot
    · rw [List.append_nil] at hbefore
      exact hbefore.symm

end Path

/-! ## Assembling a file -/

namespace Assembler

/-- What a new assembler makes of an input does not depend on what it reports. -/
theorem fresh_assemble [Evaluator] (strict verbose verbose' : Bool) (ps : List (Text × Text)) (input : Input) :
    ((fresh strict verbose ps).assemble input).1 = ((fresh strict verbose' ps).assemble input).1 := by
  obtain ⟨hstrict, hpredefines⟩ := fresh_fields strict verbose ps
  obtain ⟨hstrict', hpredefines'⟩ := fresh_fields strict verbose' ps
  have hequates : (fresh strict verbose ps).initialEquates.Same (fresh strict verbose' ps).initialEquates := by
    rw [initialEquates, initialEquates, hpredefines, hpredefines']
    exact fun _ => rfl
  have hanswer : ((fresh strict verbose ps).perform (.assemble input)).1 =
      ((fresh strict verbose' ps).perform (.assemble input)).1 :=
    perform_same (hstrict.trans hstrict'.symm) hequates (by simp)
  exact Answer.image.inj hanswer

/-- An input that fails has no image. -/
theorem assemble_failing [Evaluator] (a : Assembler) {input : Input} (h : input.failure.isSome = true) :
    ∃ e, (a.assemble input).1.result = .error e := by
  have herror : ∃ err, input.error? = some err := by
    obtain ⟨message, hmessage⟩ := Option.isSome_iff_exists.1 h
    unfold Input.error?
    split
    · exact ⟨.input message, by rw [hmessage]; rfl⟩
    · exact ⟨_, rfl⟩
  have hread : ∃ e, (Source.read a.initialEquates input).result = .error e := by
    obtain ⟨err, herr⟩ := herror
    unfold Source.read
    dsimp only
    split
    · exact ⟨_, rfl⟩
    · rw [herr]
      exact ⟨_, rfl⟩
  obtain ⟨e, he⟩ := hread
  have hparse : (a.parse input).1.result = .error e := he
  rw [assemble_eq, hparse]
  exact ⟨_, rfl⟩

end Assembler

namespace CommandLine

section System

variable {σ π : Type} {fs : FileSystem σ π} {files : σ}

/-- A path leads to a file with a text. -/
def Holds (fs : FileSystem σ π) (files : σ) (path text : Text) : Prop :=
  ∃ place, fs.source files path = .ok place ∧ fs.get? files place = some text

theorem holds_iff {path text : Text} :
    Holds fs files path text ↔ (fs.source files path).toOption.bind (fs.get? files) = some text := by
  unfold Holds
  cases fs.source files path with
  | error reason => simp [Except.toOption]
  | ok place => simp [Except.toOption]

theorem systemAccess_read_ok {path : Text} {place : π} (h : fs.source files path = .ok place) :
    (systemAccess fs).read path files = (.ok (inputAt fs files path place), files) := by
  simp only [systemAccess, h]
  rfl

theorem systemAccess_read_error {path reason : Text} (h : fs.source files path = .error reason) :
    (systemAccess fs).read path files = (.error reason, files) := by
  simp only [systemAccess, h]
  rfl

theorem systemAccess_write_ok {path bytes : Text} {place : π} (h : fs.target files path = .ok place) :
    (systemAccess fs).write path bytes files = (.ok (), fs.insert files place bytes) := by
  simp only [systemAccess, h]

theorem systemAccess_write_error {path bytes reason : Text} (h : fs.target files path = .error reason) :
    (systemAccess fs).write path bytes files = (.error reason, files) := by
  simp only [systemAccess, h]

variable [Evaluator]

/-- What is left of assembling a file of a system: the exit status and the files. -/
def assembleFile (fs : FileSystem σ π) (a : Assembler) (input output : Text) (files : σ) : UInt32 × σ :=
  match (fs.source files input).toOption.bind (fs.get? files) with
  | none => (1, files)
  | some text =>
    match (a.assemble { text }).1.result, fs.target files output with
    | .ok image, .ok place => (0, fs.insert files place image.bytes)
    | _, _ => (1, files)

theorem assembleFile_of_ok {a : Assembler} {input output text : Text} {image : Image} {place : π}
    (hread : Holds fs files input text) (himage : (a.assemble { text }).1.result = .ok image)
    (hplace : fs.target files output = .ok place) :
    assembleFile fs a input output files = (0, fs.insert files place image.bytes) := by
  simp only [assembleFile, holds_iff.1 hread, himage, hplace]

/-- Assembling a file writes the image, or fails and writes nothing. -/
theorem assembleFile_cases (fs : FileSystem σ π) (a : Assembler) (input output : Text) (files : σ) :
    (∃ text image place, Holds fs files input text ∧ (a.assemble { text }).1.result = .ok image ∧
      fs.target files output = .ok place ∧
      assembleFile fs a input output files = (0, fs.insert files place image.bytes)) ∨
    assembleFile fs a input output files = (1, files) := by
  unfold assembleFile
  split
  · exact .inr rfl
  · rename_i text hread
    split
    · rename_i image place himage hplace
      exact .inl ⟨text, image, place, holds_iff.2 hread, himage, hplace, rfl⟩
    · exact .inr rfl

namespace Job

theorem product_bytes (j : Job) (verbose : Bool) (input : Input) :
    (j.product input).bytes =
      ((Assembler.fresh j.options.strict verbose j.options.definitions).assemble input).1.result.toOption.map
        Image.bytes := by
  rw [Assembler.fresh_assemble _ verbose j.options.verbose, Assembler.assemble_eq]
  have hassembler : j.options.assembler =
      Assembler.fresh j.options.strict j.options.verbose j.options.definitions := rfl
  rw [← hassembler]
  unfold product
  dsimp only
  cases (j.options.assembler.parse input).1.result with
  | error e => rfl
  | ok s =>
    have hgenerate : (j.options.assembler.parse input).2.generate s = j.options.assembler.generate s := rfl
    dsimp only
    rw [hgenerate]
    cases (j.options.assembler.generate s).result with
    | error e => rfl
    | ok image => rfl

theorem product_of_ok (j : Job) (verbose : Bool) {input : Input} {image : Image}
    (h : ((Assembler.fresh j.options.strict verbose j.options.definitions).assemble input).1.result = .ok image) :
    (j.product input).bytes = some image.bytes := by
  rw [j.product_bytes verbose, h]
  rfl

theorem product_of_error (j : Job) (verbose : Bool) {input : Input} {e : AssemblyError}
    (h : ((Assembler.fresh j.options.strict verbose j.options.definitions).assemble input).1.result = .error e) :
    (j.product input).bytes = none := by
  rw [j.product_bytes verbose, h]
  rfl

/-! What a job does among files, case by case: its input cannot be opened, it has no image, or it has one and the
place for it decides. -/

theorem perform_unopened (j : Job) {reason : Text} (h : fs.source files j.input = .error reason) :
    ∃ stdout stderr, (j.perform (systemAccess fs)).run files = (⟨1, stdout, stderr⟩, files) := by
  simp only [perform, StateT.run, bind, StateT.bind, systemAccess_read_error h]
  exact ⟨_, _, rfl⟩

theorem perform_no_image (j : Job) {place : π} (h : fs.source files j.input = .ok place)
    (hbytes : (j.product (inputAt fs files j.input place)).bytes = none) :
    ∃ stdout stderr, (j.perform (systemAccess fs)).run files = (⟨1, stdout, stderr⟩, files) := by
  simp only [perform, StateT.run, bind, StateT.bind, systemAccess_read_ok h, hbytes]
  exact ⟨_, _, rfl⟩

theorem perform_image (j : Job) {place : π} {bytes : Text} (h : fs.source files j.input = .ok place)
    (hbytes : (j.product (inputAt fs files j.input place)).bytes = some bytes) :
    (∀ target, fs.target files j.output = .ok target → ∃ stdout stderr,
      (j.perform (systemAccess fs)).run files = (⟨0, stdout, stderr⟩, fs.insert files target bytes)) ∧
    ∀ reason, fs.target files j.output = .error reason → ∃ stdout stderr,
      (j.perform (systemAccess fs)).run files = (⟨1, stdout, stderr⟩, files) := by
  simp only [perform, StateT.run, bind, StateT.bind, systemAccess_read_ok h, hbytes]
  constructor
  · intro target htarget
    simp only [systemAccess_write_ok htarget]
    exact ⟨_, _, rfl⟩
  · intro reason htarget
    simp only [systemAccess_write_error htarget]
    exact ⟨_, _, rfl⟩

/-- A job does no more than assemble its file, whatever it prints. -/
theorem perform_eq (fs : FileSystem σ π) (j : Job) (verbose : Bool) (files : σ) :
    (((j.perform (systemAccess fs)).run files).1.status, ((j.perform (systemAccess fs)).run files).2) =
      assembleFile fs (Assembler.fresh j.options.strict verbose j.options.definitions) j.input j.output files := by
  unfold assembleFile
  cases hsource : fs.source files j.input with
  | error reason =>
    obtain ⟨stdout, stderr, hrun⟩ := j.perform_unopened hsource
    rw [hrun]
    rfl
  | ok place =>
    have hfile : (Except.ok place : Except Text π).toOption.bind (fs.get? files) = fs.get? files place := rfl
    rw [hfile]
    cases htext : fs.get? files place with
    | none =>
      have hfailing : (inputAt fs files j.input place).failure.isSome = true := by
        rw [inputAt, htext]
        rfl
      obtain ⟨e, he⟩ := Assembler.assemble_failing _ hfailing
      obtain ⟨stdout, stderr, hrun⟩ := j.perform_no_image hsource (j.product_of_error verbose he)
      rw [hrun]
    | some text =>
      have hinput : inputAt fs files j.input place = { text } := by rw [inputAt, htext]
      cases hresult :
        ((Assembler.fresh j.options.strict verbose j.options.definitions).assemble { text }).1.result with
      | error e =>
        obtain ⟨stdout, stderr, hrun⟩ := j.perform_no_image hsource (hinput ▸ j.product_of_error verbose hresult)
        rw [hrun]
        simp only [hresult]
      | ok image =>
        obtain ⟨hok, herror⟩ := j.perform_image hsource (hinput ▸ j.product_of_ok verbose hresult)
        cases htarget : fs.target files j.output with
        | ok target =>
          obtain ⟨stdout, stderr, hrun⟩ := hok target htarget
          rw [hrun]
          simp only [hresult]
        | error reason =>
          obtain ⟨stdout, stderr, hrun⟩ := herror reason htarget
          rw [hrun]
          simp only [hresult]

end Job

end System

/-! ## Runs -/

/-- Where choices put the image of an input: at the path that was given last, or, if that is empty, beside the input
with another extension. -/
def OutputPath (cs : List Choice) (input path : Text) : Prop :=
  (Choice.lastOutput cs ≠ [] ∧ path = Choice.lastOutput cs) ∨
    Choice.lastOutput cs = [] ∧ ∃ stem extension, input = stem ++ extension ∧ Path.IsExtension stem extension ∧
      path = stem ++ Text.ofString ".bin"

/-- The new assembler that choices ask for. -/
def Choice.assembler (cs : List Choice) (verbose : Bool) : Assembler :=
  Assembler.fresh (lastStrict cs) verbose (definitions cs)

/-- The path that choices and an input lead to. -/
def Choice.outputOf (cs : List Choice) (input : Text) : Text :=
  if (lastOutput cs).isEmpty then Path.stem input ++ Text.ofString ".bin" else lastOutput cs

theorem outputPath_iff {cs : List Choice} {input path : Text} :
    OutputPath cs input path ↔ path = Choice.outputOf cs input := by
  unfold OutputPath Choice.outputOf
  constructor
  · rintro (⟨hasked, rfl⟩ | ⟨hasked, stem, extension, rfl, hextension, rfl⟩)
    · rw [if_neg (by simpa using hasked)]
    · rw [if_pos (by simpa using hasked), Path.stem_eq hextension]
  · rintro rfl
    obtain ⟨extension, hinput, hextension⟩ := Path.exists_extension input
    by_cases hasked : Choice.lastOutput cs = []
    · exact .inr ⟨hasked, Path.stem input, extension, hinput, hextension, by rw [if_pos (by simpa using hasked)]⟩
    · exact .inl ⟨hasked, by rw [if_neg (by simpa using hasked)]⟩

section System

variable [Evaluator] {σ π : Type} (fs : FileSystem σ π)

theorem run_of_given {args : List Text} {cs : List Choice} {input : Text} (h : Given args cs [input]) (verbose : Bool)
    (files : σ) :
    ((run fs args files).1.status, (run fs args files).2) =
      assembleFile fs (Choice.assembler cs verbose) input (Choice.outputOf cs input) files := by
  obtain ⟨houtput, hstrict, hdefinitions⟩ := Options.foldl_choose {} cs
  have hjob : job args = .ok ⟨cs.foldl Options.choose {}, input⟩ := by
    rw [job, Options.read_ok_iff.2 ⟨cs, h, rfl⟩]
  have hrun : run fs args files = (Job.perform ⟨cs.foldl Options.choose {}, input⟩ (systemAccess fs)).run files := by
    rw [run, perform, hjob]
  rw [hrun, Job.perform_eq _ _ verbose, Job.output]
  dsimp only
  rw [houtput, hstrict, hdefinitions]
  rfl

/-- Without exactly one operand nothing is done, and only a request for help is no failure. -/
theorem run_of_not_given {args : List Text} (h : ∀ cs input, ¬ Given args cs [input]) (files : σ) :
    (run fs args files).2 = files ∧ ((run fs args files).1.status = 0 → AsksHelp args) := by
  have hjob : ∃ ending, job args = .error ending ∧ (ending.status = 0 → AsksHelp args) := by
    unfold job
    cases hread : Options.read {} args with
    | ok p =>
      obtain ⟨o, operands⟩ := p
      obtain ⟨cs, given, -⟩ := Options.read_ok_iff.1 hread
      rcases operands with - | ⟨input, - | ⟨input', operands⟩⟩
      · exact ⟨_, rfl, nofun⟩
      · exact absurd given (h cs input)
      · exact ⟨_, rfl, nofun⟩
    | error e =>
      cases e with
      | help => exact ⟨_, rfl, fun _ => Options.read_help_iff.1 hread⟩
      | _ => exact ⟨_, rfl, nofun⟩
  obtain ⟨ending, hending, hstatus⟩ := hjob
  rw [run, perform, hending]
  exact ⟨rfl, hstatus⟩

omit [Evaluator] in
theorem not_given_of_asksHelp {args operands : List Text} {cs : List Choice} (help : AsksHelp args) :
    ¬ Given args cs operands := by
  intro given
  have hread : Options.read {} args = .ok (cs.foldl Options.choose {}, operands) :=
    Options.read_ok_iff.2 ⟨cs, given, rfl⟩
  rw [Options.read_help_iff.2 help] at hread
  cases hread

/-- A run leaves the files alone and fails, unless asked for help, or it puts an image at the output path. -/
theorem run_cases (args : List Text) (files : σ) :
    ((run fs args files).2 = files ∧ ((run fs args files).1.status = 0 → AsksHelp args)) ∨
    ∃ cs input text image place, Given args cs [input] ∧ Holds fs files input text ∧
      ((Choice.assembler cs false).assemble { text }).1.result = .ok image ∧
      fs.target files (Choice.outputOf cs input) = .ok place ∧ (run fs args files).1.status = 0 ∧
      (run fs args files).2 = fs.insert files place image.bytes := by
  by_cases hgiven : ∃ cs input, Given args cs [input]
  · obtain ⟨cs, input, given⟩ := hgiven
    have hrun := run_of_given fs given false files
    rcases assembleFile_cases fs (Choice.assembler cs false) input (Choice.outputOf cs input) files with
      ⟨text, image, place, hread, himage, hplace, hfile⟩ | hfile
    · obtain ⟨hstatus, hfiles⟩ := Prod.mk.inj (hrun.trans hfile)
      exact .inr ⟨cs, input, text, image, place, given, hread, himage, hplace, hstatus, hfiles⟩
    · obtain ⟨hstatus, hfiles⟩ := Prod.mk.inj (hrun.trans hfile)
      exact .inl ⟨hfiles, fun h => by rw [hstatus] at h; cases h⟩
  · exact .inl (run_of_not_given fs (fun cs input given => hgiven ⟨cs, input, given⟩) files)

/-- Arguments among the files of a system lead to an image with these words at a place: they name one input, which
leads to a file, of whose text a new assembler makes the image, whether it reports or not, and the output path leads to
the place. -/
def Produces (args : List Text) (files : σ) (place : π) (words : List Word) : Prop :=
  ∃ cs input path text, Given args cs [input] ∧ OutputPath cs input path ∧ fs.target files path = .ok place ∧
    Holds fs files input text ∧
    ∀ verbose, ∃ image, ((Choice.assembler cs verbose).assemble { text }).1.result = .ok image ∧ image.words = words

/-- In every system of files and with every evaluator, a run changes no file but the one at the output path, and none at
all if it fails or is asked for help. Otherwise, and only where an image and a place for it exist, that file holds two
bytes for each word of the image, high byte first. Options that are about printing change neither the files nor the exit
status. -/
theorem run_writes_image (args : List Text) (files : σ) :
    (∀ place, fs.get? (run fs args files).2 place ≠ fs.get? files place →
      ∃ cs input path, Given args cs [input] ∧ OutputPath cs input path ∧ fs.target files path = .ok place) ∧
    ((run fs args files).1.status ≠ 0 ∨ AsksHelp args → (run fs args files).2 = files) ∧
    ((run fs args files).1.status = 0 ∧ ¬ AsksHelp args ↔ ∃ place words, Produces fs args files place words) ∧
    (∀ place words, Produces fs args files place words → ∃ bytes, fs.get? (run fs args files).2 place = some bytes ∧
      bytes.length = 2 * words.length ∧ Word.ofBytes? bytes = some words) ∧
    (∀ args' cs cs' input, Given args cs [input] → Given args' cs' [input] →
      cs.filter (! ·.isDisplay) = cs'.filter (! ·.isDisplay) →
      (run fs args' files).1.status = (run fs args files).1.status ∧ (run fs args' files).2 = (run fs args files).2) := by
  have hcases := run_cases fs args files
  have hproduced : ∀ place words, Produces fs args files place words → ∃ image : Image, image.words = words ∧
      (run fs args files).1.status = 0 ∧ ¬ AsksHelp args ∧ (run fs args files).2 = fs.insert files place image.bytes := by
    rintro place words ⟨cs, input, path, text, given, hpath, hplace, hread, hassembled⟩
    obtain rfl := outputPath_iff.1 hpath
    obtain ⟨image, himage, hwords⟩ := hassembled false
    have hrun := (run_of_given fs given false files).trans (assembleFile_of_ok hread himage hplace)
    obtain ⟨hstatus, hfiles⟩ := Prod.mk.inj hrun
    exact ⟨image, hwords, hstatus, fun help => not_given_of_asksHelp help given, hfiles⟩
  refine ⟨fun place hchanged => ?_, fun h => ?_, ⟨fun ⟨hstatus, hhelp⟩ => ?_, ?_⟩, fun place words h => ?_, ?_⟩
  · rcases hcases with ⟨hfiles, -⟩ | ⟨cs, input, text, image, place', given, -, -, hplace, -, hfiles⟩
    · exact absurd (congrArg (fs.get? · place) hfiles) hchanged
    · rw [hfiles] at hchanged
      have heq : place = place' := by
        by_contra hne
        exact hchanged (fs.get?_insert_of_ne files place' image.bytes place hne)
      exact ⟨cs, input, _, given, outputPath_iff.2 rfl, heq ▸ hplace⟩
  · rcases hcases with ⟨hfiles, -⟩ | ⟨cs, input, text, image, place, given, -, -, -, hstatus, -⟩
    · exact hfiles
    · rcases h with hfailed | help
      · exact absurd hstatus hfailed
      · exact absurd given (not_given_of_asksHelp help)
  · rcases hcases with ⟨-, hnone⟩ | ⟨cs, input, text, image, place, given, hread, himage, hplace, -, -⟩
    · exact absurd (hnone hstatus) hhelp
    · refine ⟨place, image.words, cs, input, _, text, given, outputPath_iff.2 rfl, hplace, hread, fun verbose => ?_⟩
      refine ⟨image, ?_, rfl⟩
      rw [Choice.assembler, Assembler.fresh_assemble _ verbose false]
      exact himage
  · rintro ⟨place, words, h⟩
    obtain ⟨-, -, hstatus, hhelp, -⟩ := hproduced place words h
    exact ⟨hstatus, hhelp⟩
  · obtain ⟨image, rfl, -, -, hfiles⟩ := hproduced place words h
    obtain ⟨hwords, hlength⟩ := image.ofBytes?_bytes
    exact ⟨image.bytes, by rw [hfiles, fs.get?_insert_self], hlength, hwords⟩
  · intro args' cs cs' input given given' hsame
    obtain ⟨houtput, hstrict, hdefinitions⟩ := Choice.decisive_same hsame
    have hrun := run_of_given fs given false files
    rw [Choice.assembler, Choice.outputOf, houtput, hstrict, hdefinitions] at hrun
    exact Prod.mk.inj ((run_of_given fs given' false files).trans hrun.symm)

end System

/-- A strict run with a definition and a listing, on an input outside the working directory with two dots in its name;
without the listing it leaves the same files. -/
theorem run_writes_image_listing :
    let _ : Evaluator := ⟨fun _ _ => none⟩
    let input := Text.ofString "../src//a.b.dasm"
    let args := [Text.ofString "-strict", Text.ofString "--D", Text.ofString "n=0x1234", input]
    let listed := Text.ofString "-l=1" :: args
    let files : Files :=
      { entries := [([Text.ofString "src", Text.ofString "a.b.dasm"], Text.ofString ":x SET A, n\n")]
        here := [Text.ofString "work"] }
    let place := [Text.ofString "src", Text.ofString "a.b.bin"]
    Produces Files.system listed files place [0x7c01, 0x1234] ∧ (run Files.system listed files).1.status = 0 ∧
      ¬ AsksHelp listed ∧
      (∃ bytes, (run Files.system listed files).2.get? place = some bytes ∧ bytes.length = 4 ∧
        Word.ofBytes? bytes = some [0x7c01, 0x1234]) ∧
      (run Files.system args files).2 = (run Files.system listed files).2 := by
  intro _ input args listed files place
  have hstrict : Spells (Text.ofString "-strict") (Text.ofString "strict") none :=
    ⟨by decide, by decide, by decide, [45], .inl rfl, by decide⟩
  have hdefine : Spells (Text.ofString "--D") (Text.ofString "D") none :=
    ⟨by decide, by decide, by decide, [45, 45], .inr rfl, by decide⟩
  have hlisting : Spells (Text.ofString "-l=1") (Text.ofString "l") (some (Text.ofString "1")) :=
    ⟨by decide, by decide, by decide, [45], .inl rfl, by decide⟩
  have hvalue : Setting.define.Chooses (Text.ofString "n=0x1234")
      (.define (Text.ofString "n") (Text.ofString "0x1234")) := .define (by decide) (by decide) _
  have given : Given args [.switch .strict true, .define (Text.ofString "n") (Text.ofString "0x1234")] [input] :=
    .take (.switch hstrict (by decide) _) (.take (.setting hdefine (by decide) hvalue _)
      (.stop (.operand (by decide) [])))
  have listedGiven : Given listed [.switch .listing true, .switch .strict true,
      .define (Text.ofString "n") (Text.ofString "0x1234")] [input] :=
    .take (.switchTo hlisting (by decide) (by decide) args) given
  have produces : Produces Files.system listed files place [0x7c01, 0x1234] := by
    refine ⟨_, input, Text.ofString "../src//a.b.bin", Text.ofString ":x SET A, n\n", listedGiven, ?_, ?_, ?_,
      fun verbose => ?_⟩
    · exact .inr ⟨rfl, Text.ofString "../src//a.b", Text.ofString ".dasm", by decide,
        .inl ⟨Text.ofString "dasm", by decide, by decide, by decide⟩, by decide⟩
    · exact ok_of_toOption (by decide +kernel)
    · exact ⟨[Text.ofString "src", Text.ofString "a.b.dasm"], ok_of_toOption (by decide +kernel), by decide +kernel⟩
    · refine map_ok (f := Image.words) (ok_of_toOption ?_)
      cases verbose <;> decide +kernel
  obtain ⟨-, -, hsuccess, hbytes, hsame⟩ := run_writes_image Files.system listed files
  obtain ⟨hstatus, hhelp⟩ := hsuccess.2 ⟨place, _, produces⟩
  exact ⟨produces, hstatus, hhelp, hbytes place _ produces, (hsame args _ _ input listedGiven given rfl).2⟩

end CommandLine

end Dcpu16
