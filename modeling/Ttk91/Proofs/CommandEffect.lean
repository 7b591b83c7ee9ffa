import Ttk91.Command.Run
import Ttk91.Proofs.WrittenFile

/-! What a run of the command does to the files: all that it was asked for, or nothing. Main
statement: which of its endings a run has, and that only a successful one has written a file, if
standard output can encode what is printed. A run that cannot print its summary has written too. -/

namespace Ttk91

namespace Command

/-- The file that takes the image: the one asked for, if its path is not empty, and else the source
with another suffix. -/
inductive Options.IsTarget (options : Options) : Text → Prop
  | asked {path : Text} (houtput : options.output = some path) (hne : path ≠ []) :
      IsTarget options path
  | usual {path : Text} (houtput : options.output = none ∨ options.output = some [])
      (hsuffix : Path.withSuffix? options.source ".b91".toList = some path) : IsTarget options path

theorem Options.isTarget_iff {options : Options} {path : Text} :
    options.IsTarget path ↔ options.target? = some path := by
  constructor
  · intro h
    cases h with
    | asked houtput hne => simp [target?, houtput, hne]
    | usual houtput hsuffix =>
      rcases houtput with houtput | houtput <;>
        simpa [target?, houtput, target?.usualTarget?] using hsuffix
  · intro h
    cases houtput : options.output with
    | none =>
      rw [target?, houtput] at h
      exact .usual (Or.inl houtput) h
    | some asked =>
      rw [target?, houtput] at h
      by_cases hne : asked = []
      · subst hne
        exact .usual (Or.inr houtput) h
      · simp only [List.isEmpty_iff, hne, if_false, Option.some.injEq] at h
        subst h
        exact .asked houtput hne

/-- The texts that the command refuses: an image that cannot be read when there is one to list, and
else a source that cannot be assembled. -/
def Options.Rejects (options : Options) (text : Text) : Prop :=
  if options.listing then ∃ e, Image.parse text = .error e else ∃ e, assemble text = .error e

theorem Options.rejects_of_listing {options : Options} {text : Text}
    (h : options.listing = true) : options.Rejects text ↔ ∃ e, Image.parse text = .error e := by
  rw [Rejects, if_pos h]

theorem Options.rejects_of_assembly {options : Options} {text : Text}
    (h : options.listing = false) : options.Rejects text ↔ ∃ e, assemble text = .error e := by
  rw [Rejects, h, if_neg Bool.false_ne_true]

def Outcome.Exits (outcome : Outcome) (status : Nat) : Prop :=
  ∃ printed errors, outcome = .finished status printed errors

def HasText (tree : FileTree) (path text : Text) : Prop :=
  hasNul path = false ∧ ∃ bytes, tree.read path = .ok bytes ∧ decode? bytes = some text

def Yields (tree : FileTree) (options : Options) (image : Image) : Prop :=
  options.listing = false ∧
    ∃ text, HasText tree options.source text ∧ assemble text = .ok image

def imageBytes (image : Image) : ByteArray := (String.ofList image.render).toUTF8

/-- The lines that a run prints if it gets that far. -/
inductive Prints (before : FileTree) (options : Options) : List Text → Prop
  | listing {text : Text} {image : Image} (hlisting : options.listing = true)
      (htext : HasText before options.source text) (hparse : Image.parse text = .ok image) :
      Prints before options (listing image)
  | summary {image : Image} {path : Text} (hyields : Yields before options image)
      (htarget : options.IsTarget path) : Prints before options [summary image path]

theorem Yields.exists_isTarget {tree : FileTree} {options : Options} {image : Image}
    (h : Yields tree options image) : ∃ path, options.IsTarget path := by
  obtain ⟨-, text, ⟨-, bytes, hread, -⟩, -⟩ := h
  obtain ⟨renamed, hsuffix⟩ := FileTree.exists_withSuffix?_of_read hread ".b91".toList
  cases houtput : options.output with
  | none => exact ⟨renamed, .usual (Or.inl houtput) hsuffix⟩
  | some path =>
    by_cases hne : path = []
    · exact ⟨renamed, .usual (Or.inr (hne ▸ houtput)) hsuffix⟩
    · exact ⟨path, .asked houtput hne⟩

theorem printLines_of_encodable {charset : Char → Bool} {lines : List Text}
    (h : encodable charset lines = true) :
    ∃ printed, printLines charset lines = .finished 0 printed "" :=
  ⟨_, if_pos h⟩

theorem printLines_of_not_encodable {charset : Char → Bool} {lines : List Text}
    (h : encodable charset lines = false) :
    ∃ printed, printLines charset lines = .unencodable printed := by
  rw [printLines, if_neg (by simp [h])]
  exact ⟨_, rfl⟩

end Command

namespace FileTree

open Command

variable {tree : FileTree} {platform : Platform} {arguments : List Text} {options : Options}
  {text path : Text} {image : Image}

/-! Access to the files of a tree, one step at a time. -/

theorem run_read_bind {α : Type} (path : Text)
    (next : Except AccessError ByteArray → StateM FileTree α) :
    (files.read path >>= next).run tree = (next (tree.read path)).run tree := rfl

theorem run_write_bind_of_error {α : Type} {bytes : ByteArray} {e : AccessError}
    (h : tree.write path bytes = .error e) (next : Except AccessError Unit → StateM FileTree α) :
    (files.write path bytes >>= next).run tree = (next (.error e)).run tree := by
  simp [files, h]

theorem run_write_bind_of_ok {α : Type} {bytes : ByteArray} {after : FileTree}
    (h : tree.write path bytes = .ok after) (next : Except AccessError Unit → StateM FileTree α) :
    (files.write path bytes >>= next).run tree = (next (.ok ())).run after := by
  simp [files, h]

/-! What a run comes to, by how far it gets. -/

section
variable (h : Request.ofArguments platform.release arguments = .run options)
include h

theorem runCommand_eq :
    tree.runCommand platform arguments =
      (withText files options.source fun text =>
        if options.listing then pure (list platform.charset text)
        else assembleTo files platform.charset options text).run tree := by
  rw [runCommand, run, h]

theorem runCommand_of_nulInSource (hnul : hasNul options.source = true) :
    tree.runCommand platform arguments = (.nulInPath, tree) := by
  rw [runCommand_eq h, withText, if_pos hnul]
  rfl

theorem runCommand_of_unreadable (hnul : hasNul options.source = false) {e : AccessError}
    (hread : tree.read options.source = .error e) :
    ∃ errors, tree.runCommand platform arguments = (.finished 2 "" errors, tree) := by
  rw [runCommand_eq h, withText, hnul, if_neg Bool.false_ne_true, run_read_bind, hread]
  exact ⟨_, rfl⟩

theorem runCommand_of_undecodable (hnul : hasNul options.source = false) {bytes : ByteArray}
    (hread : tree.read options.source = .ok bytes) (hdecode : decode? bytes = none) :
    tree.runCommand platform arguments = (.notUtf8, tree) := by
  rw [runCommand_eq h, withText, hnul, if_neg Bool.false_ne_true, run_read_bind, hread]
  simp only [hdecode]
  rfl

theorem runCommand_of_hasText (htext : HasText tree options.source text) :
    tree.runCommand platform arguments =
      if options.listing then (list platform.charset text, tree)
      else (assembleTo files platform.charset options text).run tree := by
  obtain ⟨hnul, bytes, hread, hdecode⟩ := htext
  rw [runCommand_eq h, withText, hnul, if_neg Bool.false_ne_true, run_read_bind, hread]
  simp only [hdecode]
  split <;> rfl

theorem runCommand_of_rejects (htext : HasText tree options.source text)
    (hrejects : options.Rejects text) :
    ∃ errors, tree.runCommand platform arguments = (.finished 1 "" errors, tree) := by
  rw [runCommand_of_hasText h htext]
  cases hlisting : options.listing with
  | true =>
    obtain ⟨e, hparse⟩ := (Options.rejects_of_listing hlisting).mp hrejects
    rw [if_pos rfl, list, hparse]
    exact ⟨_, rfl⟩
  | false =>
    obtain ⟨e, hassemble⟩ := (Options.rejects_of_assembly hlisting).mp hrejects
    rw [if_neg Bool.false_ne_true, assembleTo, diagnose, hassemble]
    exact ⟨_, rfl⟩

theorem runCommand_of_listing (htext : HasText tree options.source text)
    (hlisting : options.listing = true) (hparse : Image.parse text = .ok image) :
    tree.runCommand platform arguments =
      (printLines platform.charset (listing image), tree) := by
  rw [runCommand_of_hasText h htext, if_pos hlisting, list, hparse]

theorem runCommand_of_yields (hyields : Yields tree options image) :
    ∃ text, tree.runCommand platform arguments =
        (assembleTo files platform.charset options text).run tree ∧
      diagnose text (some (String.ofList options.source)) = .ok image := by
  obtain ⟨hlisting, text, htext, hassemble⟩ := hyields
  refine ⟨text, ?_, ?_⟩
  · rw [runCommand_of_hasText h htext, hlisting, if_neg Bool.false_ne_true]
  · rw [diagnose, hassemble]

theorem runCommand_of_nulInTarget (hyields : Yields tree options image)
    (htarget : options.IsTarget path) (hnul : hasNul path = true) :
    tree.runCommand platform arguments = (.nulInPath, tree) := by
  obtain ⟨text, hrun, hdiagnose⟩ := runCommand_of_yields h hyields
  rw [hrun, assembleTo, hdiagnose, Options.isTarget_iff.mp htarget]
  simp only [if_pos hnul]
  rfl

theorem runCommand_of_unwritable (hyields : Yields tree options image)
    (htarget : options.IsTarget path) (hnul : hasNul path = false) {e : AccessError}
    (hwrite : tree.write path (imageBytes image) = .error e) :
    ∃ errors, tree.runCommand platform arguments = (.finished 3 "" errors, tree) := by
  obtain ⟨text, hrun, hdiagnose⟩ := runCommand_of_yields h hyields
  rw [imageBytes] at hwrite
  rw [hrun, assembleTo, hdiagnose, Options.isTarget_iff.mp htarget]
  simp only [hnul, if_neg Bool.false_ne_true]
  rw [run_write_bind_of_error hwrite]
  exact ⟨_, rfl⟩

theorem runCommand_of_written (hyields : Yields tree options image)
    (htarget : options.IsTarget path) (hnul : hasNul path = false) {after : FileTree}
    (hwrite : tree.write path (imageBytes image) = .ok after) :
    tree.runCommand platform arguments =
      (printLines platform.charset [summary image path], after) := by
  obtain ⟨text, hrun, hdiagnose⟩ := runCommand_of_yields h hyields
  rw [imageBytes] at hwrite
  rw [hrun, assembleTo, hdiagnose, Options.isTarget_iff.mp htarget]
  simp only [hnul, if_neg Bool.false_ne_true]
  rw [run_write_bind_of_ok hwrite]
  rfl

end
end FileTree

namespace Command

/-- The endings of a run, with the tree that each leaves behind. -/
inductive Ends (charset : Char → Bool) (before : FileTree) (options : Options) :
    Outcome → FileTree → Prop
  | nulInSource (hnul : hasNul options.source = true) :
      Ends charset before options .nulInPath before
  | unreadable {e : AccessError} {errors : String} (hnul : hasNul options.source = false)
      (hread : before.read options.source = .error e) :
      Ends charset before options (.finished 2 "" errors) before
  | undecodable {bytes : ByteArray} (hnul : hasNul options.source = false)
      (hread : before.read options.source = .ok bytes)
      (hdecode : String.fromUTF8? bytes = none) : Ends charset before options .notUtf8 before
  | rejected {text : Text} {errors : String} (htext : HasText before options.source text)
      (hrejects : options.Rejects text) :
      Ends charset before options (.finished 1 "" errors) before
  | listed {printed : String} (hlisting : options.listing = true) :
      Ends charset before options (.finished 0 printed "") before
  | listedInPart {lines : List Text} {printed : String} (hlisting : options.listing = true)
      (hprints : Prints before options lines) (hcut : encodable charset lines = false) :
      Ends charset before options (.unencodable printed) before
  | nulInTarget {image : Image} {path : Text} (hyields : Yields before options image)
      (htarget : options.IsTarget path) (hnul : hasNul path = true) :
      Ends charset before options .nulInPath before
  | unwritable {image : Image} {path : Text} {e : AccessError} {errors : String}
      (hyields : Yields before options image) (htarget : options.IsTarget path)
      (hnul : hasNul path = false) (hwrite : before.write path (imageBytes image) = .error e) :
      Ends charset before options (.finished 3 "" errors) before
  | written {image : Image} {path : Text} {printed : String} {after : FileTree}
      (hyields : Yields before options image) (htarget : options.IsTarget path)
      (hwrite : before.write path (imageBytes image) = .ok after) :
      Ends charset before options (.finished 0 printed "") after
  | writtenInSilence {image : Image} {path : Text} {printed : String} {after : FileTree}
      (hyields : Yields before options image) (htarget : options.IsTarget path)
      (hwrite : before.write path (imageBytes image) = .ok after)
      (hcut : encodable charset [summary image path] = false) :
      Ends charset before options (.unencodable printed) after

variable {before after : FileTree} {platform : Platform} {arguments : List Text}
  {options : Options} {outcome : Outcome}

theorem decode?_eq_none {bytes : ByteArray} :
    decode? bytes = none ↔ String.fromUTF8? bytes = none := Option.map_eq_none_iff

section
variable (h : Request.ofArguments platform.release arguments = .run options)
  (hrun : before.runCommand platform arguments = (outcome, after))
include h hrun

theorem ends_of_listing {text : Text} {image : Image}
    (htext : HasText before options.source text) (hlisting : options.listing = true)
    (hparse : Image.parse text = .ok image) :
    Ends platform.charset before options outcome after := by
  have heq : before.runCommand platform arguments = _ :=
    FileTree.runCommand_of_listing h htext hlisting hparse
  cases hcut : encodable platform.charset (listing image) with
  | true =>
    obtain ⟨printed, hprinted⟩ := printLines_of_encodable hcut
    cases hrun.symm.trans (hprinted ▸ heq)
    exact .listed hlisting
  | false =>
    obtain ⟨printed, hprinted⟩ := printLines_of_not_encodable hcut
    cases hrun.symm.trans (hprinted ▸ heq)
    exact .listedInPart hlisting (.listing hlisting htext hparse) hcut

theorem ends_of_written {image : Image} {path : Text} {tree : FileTree}
    (hyields : Yields before options image) (htarget : options.IsTarget path)
    (hnul : hasNul path = false) (hwrite : before.write path (imageBytes image) = .ok tree) :
    Ends platform.charset before options outcome after := by
  have heq := FileTree.runCommand_of_written h hyields htarget hnul hwrite
  cases hcut : encodable platform.charset [summary image path] with
  | true =>
    obtain ⟨printed, hprinted⟩ := printLines_of_encodable hcut
    cases hrun.symm.trans (hprinted ▸ heq)
    exact .written hyields htarget hwrite
  | false =>
    obtain ⟨printed, hprinted⟩ := printLines_of_not_encodable hcut
    cases hrun.symm.trans (hprinted ▸ heq)
    exact .writtenInSilence hyields htarget hwrite hcut

theorem ends_of_yields {image : Image} (hyields : Yields before options image) :
    Ends platform.charset before options outcome after := by
  obtain ⟨path, htarget⟩ := hyields.exists_isTarget
  cases hnul : hasNul path with
  | true =>
    cases hrun.symm.trans (FileTree.runCommand_of_nulInTarget h hyields htarget hnul)
    exact .nulInTarget hyields htarget hnul
  | false =>
    cases hwrite : before.write path (imageBytes image) with
    | error e =>
      obtain ⟨errors, heq⟩ := FileTree.runCommand_of_unwritable h hyields htarget hnul hwrite
      cases hrun.symm.trans heq
      exact .unwritable hyields htarget hnul hwrite
    | ok tree => exact ends_of_written h hrun hyields htarget hnul hwrite

theorem ends_of_hasText {text : Text} (htext : HasText before options.source text) :
    Ends platform.charset before options outcome after := by
  by_cases hrejects : options.Rejects text
  · obtain ⟨errors, heq⟩ := FileTree.runCommand_of_rejects h htext hrejects
    cases hrun.symm.trans heq
    exact .rejected htext hrejects
  cases hlisting : options.listing with
  | true =>
    cases hparse : Image.parse text with
    | error e => exact absurd ((Options.rejects_of_listing hlisting).mpr ⟨e, hparse⟩) hrejects
    | ok image => exact ends_of_listing h hrun htext hlisting hparse
  | false =>
    cases hassemble : assemble text with
    | error e => exact absurd ((Options.rejects_of_assembly hlisting).mpr ⟨e, hassemble⟩) hrejects
    | ok image => exact ends_of_yields h hrun ⟨hlisting, text, htext, hassemble⟩

theorem ends_runCommand : Ends platform.charset before options outcome after := by
  cases hnul : hasNul options.source with
  | true =>
    cases hrun.symm.trans (FileTree.runCommand_of_nulInSource h hnul)
    exact .nulInSource hnul
  | false =>
    cases hread : before.read options.source with
    | error e =>
      obtain ⟨errors, heq⟩ := FileTree.runCommand_of_unreadable h hnul hread
      cases hrun.symm.trans heq
      exact .unreadable hnul hread
    | ok bytes =>
      cases hdecode : decode? bytes with
      | none =>
        cases hrun.symm.trans (FileTree.runCommand_of_undecodable h hnul hread hdecode)
        exact .undecodable hnul hread (decode?_eq_none.mp hdecode)
      | some text => exact ends_of_hasText h hrun ⟨hnul, bytes, hread, hdecode⟩

/-! What the ending says about the tree before the run, and the other way round. -/

end

/-- The image of the source stands in the target, and nothing else has changed. -/
def Done (before : FileTree) (options : Options) (after : FileTree) : Prop :=
  ∃ path text image, options.IsTarget path ∧ HasText before options.source text ∧
    assemble text = .ok image ∧ before.Written path (imageBytes image) after

theorem done_of_write {image : Image} {path : Text} (hyields : Yields before options image)
    (htarget : options.IsTarget path)
    (hwrite : before.write path (imageBytes image) = .ok after) : Done before options after := by
  obtain ⟨-, text, htext, hassemble⟩ := hyields
  exact ⟨path, text, image, htarget, htext, hassemble, FileTree.written_of_write hwrite⟩

namespace Ends

variable {charset : Char → Bool} (h : Ends charset before options outcome after)
include h

theorem done (hexit : outcome.Exits 0) (hlisting : options.listing = false) :
    Done before options after := by
  obtain ⟨printed, errors, rfl⟩ := hexit
  cases h with
  | listed hlists => exact absurd (hlisting.symm.trans hlists) Bool.false_ne_true
  | written hyields htarget hwrite => exact done_of_write hyields htarget hwrite

/-- A run that breaks off while it prints has done everything else. -/
theorem of_unencodable {printed : String} (hcut : outcome = .unencodable printed) :
    (∃ lines, Prints before options lines ∧ encodable charset lines = false) ∧
      if options.listing then after = before else Done before options after := by
  subst hcut
  cases h with
  | listedInPart hlisting hprints hcut =>
    exact ⟨⟨_, hprints, hcut⟩, by rw [if_pos hlisting]⟩
  | writtenInSilence hyields htarget hwrite hcut =>
    refine ⟨⟨_, .summary hyields htarget, hcut⟩, ?_⟩
    rw [hyields.1, if_neg Bool.false_ne_true]
    exact done_of_write hyields htarget hwrite

variable (hencodes : ∀ lines, Prints before options lines → encodable charset lines = true)
include hencodes

end Ends

/-- A run that cannot print its summary has written the image all the same. -/
theorem done_of_unencodable (h : Request.ofArguments platform.release arguments = .run options)
    {printed : String} (hrun : before.runCommand platform arguments = (.unencodable printed, after))
    (hlisting : options.listing = false) : Done before options after := by
  have hends := (ends_runCommand h hrun).of_unencodable rfl
  rw [hlisting, if_neg Bool.false_ne_true] at hends
  exact hends.2

-- ASCII has no arrow.
example :
    (FileTree.runCommand ⟨[(["a".toList], .file "x NOP".toUTF8)], []⟩
      ⟨.late, fun c => decide (c.toNat < 128)⟩ ["a".toList]).1 = .unencodable "" := by
  decide +kernel

end Command
end Ttk91
