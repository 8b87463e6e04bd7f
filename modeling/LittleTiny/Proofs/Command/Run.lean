import LittleTiny.Command.Run
import LittleTiny.Proofs.Command.Files

/-!
# All or nothing

A run that does not get as far as writing its listing leaves the files and the standard output as
they were; any other run puts the listing where it belongs and changes nothing else there
(`Command.run_all_or_nothing`). What is written is what the pure compilation of the text gives, even
if it is written over the text itself.
-/

namespace LittleTiny.Command

/-- The name under which an input is reported. -/
def sourceName (input : String) : String := if input = "-" then "<stdin>" else input

namespace Machine

/-- The bytes that can be read from an input. -/
def bytes? (m : Machine) (input : String) : Option ByteArray :=
  if input = "-" then some m.stdin else (m.load input).toOption

/-- What keeps a run from writing its listing. -/
inductive Refuses (m : Machine) (options : Options) : Prop where
  /-- The input cannot be opened, or not be read. -/
  | unreadable (h : m.bytes? options.input = none)
  | notText {bytes : ByteArray} (h : m.bytes? options.input = some bytes)
      (hbytes : ¬ bytes.IsValidUTF8)
  | notCompiled {text : String} {failure : Failure}
      (h : m.bytes? options.input = some text.toUTF8)
      (hcompile : compile (.ofText (sourceName options.input) text) = .error failure)
  /-- The output cannot be opened. -/
  | unwritable {e : SystemError} (h : options.output ≠ "-")
      (hopen : m.files.toWrite options.output = .error e)

/-- The output takes all of the text. -/
def Accepts (m : Machine) (output text : String) : Prop :=
  output = "-" ∨ m.files.toWrite output ≠ .ok (.device .full) ∨ text = ""

/-- From `m` to `after` the text has come to stand in the output, and nothing else has changed, but
for what is printed as errors. -/
inductive Delivers (m after : Machine) (output text : String) : Prop where
  | standard (h : output = "-") (hout : after.out = m.out ++ text) (hfiles : after.files = m.files)
  /-- The name of the output now leads to the text, and the other files are as they were. -/
  | file {place : Place} {path : Path} (h : output ≠ "-")
      (hplace : m.files.toWrite output = .ok place) (hpath : place.path? = some path)
      (hload : after.load output = .ok text.toUTF8)
      (hcontent : after.files.content? path = some text.toUTF8)
      (hothers : ∀ other, other ≠ path → after.files.content? other = m.files.content? other)
      (hout : after.out = m.out)
  /-- The text is the last thing that was fed to a device. -/
  | device {d : Device} {log : String} (h : output ≠ "-")
      (hplace : m.files.toWrite output = .ok (.device d))
      (hfeed : (m.printErr log).feed text d = .ok after) (hfiles : after.files = m.files)

/-- From `m` to `after` everything has been done that the options ask for, and the exit status is 0,
or nothing has been done and it is 1. -/
structure AllOrNothing (m : Machine) (options : Options) (status : Nat) (after : Machine) :
    Prop where
  nothing : m.Refuses options → status = 1 ∧ after.out = m.out ∧ after.files = m.files
  all : ¬ m.Refuses options → ∃ (text : String) (c : Compilation) (listing : String),
    m.bytes? options.input = some text.toUTF8 ∧
    compile (.ofText (sourceName options.input) text) = .ok c ∧
    listing = c.listing ⟨options.tree, !options.noCode, !options.noTarget⟩ ∧
    (m.Accepts options.output listing → status = 0 ∧ m.Delivers after options.output listing)

/-! ## Runs of the host -/

theorem run_bind {α β : Type} {x : StateM Machine α} {f : α → StateM Machine β} {m m' : Machine}
    {a : α} (h : x.run m = (a, m')) : (x >>= f).run m = (f a).run m' := by
  rw [StateT.run_bind, h]
  rfl

theorem run_stdin (m : Machine) : host.stdin.run m = (.ok m.stdin, m) := rfl

theorem run_load (m : Machine) (path : String) : (host.load path).run m = (m.load path, m) := rfl

theorem run_err (m : Machine) (text : String) : (host.err text).run m = ((), m.printErr text) := rfl

theorem run_save_of_ok {m m' : Machine} {path text : String} (h : m.save path text = .ok m') :
    (host.save path text).run m = (.ok (), m') := by
  have hget : (get : StateM Machine Machine).run m = (m, m) := rfl
  unfold host
  rw [run_bind hget, h]
  rfl

theorem run_save_of_error {m : Machine} {path text : String} {e : FileError}
    (h : m.save path text = .error e) : (host.save path text).run m = (.error e, m) := by
  have hget : (get : StateM Machine Machine).run m = (m, m) := rfl
  unfold host
  rw [run_bind hget, h]
  rfl

/-! ## Reading -/

section

variable {m : Machine} {input : String}

theorem run_readSource_of_text {text : String} (h : m.bytes? input = some text.toUTF8) :
    (readSource host input).run m = (.ok (.ofText (sourceName input) text), m) := by
  unfold bytes? at h
  unfold readSource sourceName
  by_cases hinput : input = "-"
  · rw [if_pos hinput] at h
    rw [if_pos hinput, if_pos hinput, run_bind (run_stdin m), Option.some.inj h]
    simp only [Source.ofBytes_toUTF8]
    rfl
  · rw [if_neg hinput] at h
    rw [if_neg hinput, if_neg hinput, run_bind (run_load m input)]
    cases hload : m.load input with
    | error e =>
      rw [hload] at h
      cases h
    | ok bytes =>
      rw [hload] at h
      obtain rfl : bytes = text.toUTF8 := Option.some.inj h
      simp only [Source.ofBytes_toUTF8]
      rfl

/-- Without a text there is an error, and nothing changes. -/
theorem run_readSource_of_no_text (h : ∀ text : String, m.bytes? input ≠ some text.toUTF8) :
    ∃ trouble, (readSource host input).run m = (.error trouble, m) := by
  have hsource : ∀ (name : String) (bytes : ByteArray), m.bytes? input = some bytes →
      ∃ e, Source.ofBytes name bytes = .error e := by
    intro name bytes hbytes
    cases hs : Source.ofBytes name bytes with
    | error e => exact ⟨e, rfl⟩
    | ok s =>
      obtain ⟨text, rfl⟩ := Source.exists_text_of_ofBytes hs
      exact absurd hbytes (h text)
  unfold bytes? at hsource
  unfold readSource
  by_cases hinput : input = "-"
  · rw [if_pos hinput] at hsource
    obtain ⟨e, he⟩ := hsource "<stdin>" m.stdin rfl
    rw [if_pos hinput, run_bind (run_stdin m)]
    simp only [he]
    exact ⟨_, rfl⟩
  · rw [if_neg hinput] at hsource
    rw [if_neg hinput, run_bind (run_load m input)]
    cases hload : m.load input with
    | error e => cases e <;> exact ⟨_, rfl⟩
    | ok bytes =>
      obtain ⟨e, he⟩ := hsource input bytes (by rw [hload]; rfl)
      simp only [he]
      exact ⟨_, rfl⟩

end

/-! ## Writing -/

section

variable {m : Machine} {output text : String}

/-- An output that cannot be opened is left alone. -/
theorem run_writeListing_of_error {e : SystemError} (h : output ≠ "-")
    (hopen : m.files.toWrite output = .error e) (text : String) :
    ∃ message, (writeListing host output text).run m = (1, m.printErr message) := by
  have hsave : m.save output text = .error (.opening e) := by
    rw [save, hopen]
  unfold writeListing
  rw [if_neg h, run_bind (run_save_of_error hsave)]
  exact ⟨_, rfl⟩

theorem run_writeListing_of_save {after : Machine} (h : output ≠ "-")
    (hsave : m.save output text = .ok after) :
    (writeListing host output text).run m = (0, after) := by
  unfold writeListing
  rw [if_neg h, run_bind (run_save_of_ok hsave)]
  rfl

theorem load_put {place : Place} {path : Path} (hplace : m.files.toWrite output = .ok place)
    (hpath : place.path? = some path) (content : ByteArray) :
    load { m with files := m.files.put path content } output = .ok content := by
  rw [load, Files.toRead_put hplace hpath]

/-- A file is saved as a whole. -/
theorem delivers_put {place : Place} {path : Path} (h : output ≠ "-")
    (hplace : m.files.toWrite output = .ok place) (hpath : place.path? = some path)
    (log text : String) :
    m.Delivers { m.printErr log with files := m.files.put path text.toUTF8 } output text :=
  .file h hplace hpath (load_put hplace hpath text.toUTF8)
    (m.files.content?_put_self path text.toUTF8)
    (fun _ hother => m.files.content?_put_of_ne path text.toUTF8 hother) rfl

theorem exists_feed (m : Machine) {text : String} {d : Device} (h : d ≠ .full ∨ text = "") :
    ∃ after, m.feed text d = .ok after ∧ after.files = m.files := by
  cases d with
  | full =>
    obtain rfl := h.resolve_left (fun hd => hd rfl)
    exact ⟨m, rfl, rfl⟩
  | _ => exact ⟨_, rfl, rfl⟩

/-- An output that can be opened and takes the text is given the text. -/
theorem run_writeListing (log : String)
    (hopen : output = "-" ∨ ∃ place, m.files.toWrite output = .ok place)
    (haccepts : m.Accepts output text) :
    ∃ after, (writeListing host output text).run (m.printErr log) = (0, after) ∧
      m.Delivers after output text := by
  by_cases houtput : output = "-"
  · subst houtput
    exact ⟨(m.printErr log).printOut text, rfl, .standard rfl rfl rfl⟩
  · obtain ⟨place, hplace⟩ := hopen.resolve_left houtput
    have hroom := haccepts.resolve_left houtput
    obtain ⟨-, -, -, -, hdirectory⟩ := Files.exists_entry_of_toWrite hplace
    have hplace' : (m.printErr log).files.toWrite output = .ok place := hplace
    cases place with
    | directory path => exact absurd rfl (hdirectory path)
    | file path content =>
      refine ⟨_, run_writeListing_of_save houtput ?_, delivers_put houtput hplace rfl log text⟩
      rw [save, hplace']
      rfl
    | vacant path =>
      refine ⟨_, run_writeListing_of_save houtput ?_, delivers_put houtput hplace rfl log text⟩
      rw [save, hplace']
      rfl
    | device d =>
      have hd : d ≠ .full ∨ text = "" := by
        refine hroom.imp_left fun hfull => ?_
        rintro rfl
        exact hfull hplace
      obtain ⟨after, hfeed, hfiles⟩ := (m.printErr log).exists_feed hd
      refine ⟨after, run_writeListing_of_save houtput ?_, .device houtput hplace hfeed hfiles⟩
      rw [save, hplace']
      exact hfeed

end

/-! ## Whole runs -/

section

variable {m : Machine} {options : Options}

/-- When the text compiles, only the output can be in the way. -/
theorem unwritable_of_refuses {text : String} {c : Compilation} (h : m.Refuses options)
    (htext : m.bytes? options.input = some text.toUTF8)
    (hcompile : compile (.ofText (sourceName options.input) text) = .ok c) :
    options.output ≠ "-" ∧ ∃ e, m.files.toWrite options.output = .error e := by
  cases h with
  | unreadable h =>
    rw [htext] at h
    cases h
  | notText h hinvalid =>
    rw [htext] at h
    cases h
    exact absurd text.isValidUTF8 hinvalid
  | notCompiled h hfailure =>
    rw [htext] at h
    rw [String.toByteArray_inj.1 (Option.some.inj h), hfailure] at hcompile
    cases hcompile
  | unwritable h hopen => exact ⟨h, _, hopen⟩

/-- The text of the input of a run. -/
theorem exists_text_of_not_refuses (h : ¬ m.Refuses options) :
    ∃ text : String, m.bytes? options.input = some text.toUTF8 := by
  cases hbytes : m.bytes? options.input with
  | none => exact absurd (.unreadable hbytes) h
  | some bytes =>
    have hvalid : bytes.IsValidUTF8 := by
      by_contra hinvalid
      exact h (.notText hbytes hinvalid)
    exact ⟨String.fromUTF8 bytes hvalid, rfl⟩

theorem run_build_of_no_text (h : ∀ text : String, m.bytes? options.input ≠ some text.toUTF8) :
    ∃ message, (build host options).run m = (1, m.printErr message) := by
  obtain ⟨trouble, htrouble⟩ := run_readSource_of_no_text h
  unfold build
  rw [run_bind htrouble]
  exact ⟨_, rfl⟩

theorem run_build_of_failure {text : String} {failure : Failure}
    (h : m.bytes? options.input = some text.toUTF8)
    (hcompile : compile (.ofText (sourceName options.input) text) = .error failure) :
    ∃ log message, (build host options).run m = (1, (m.printErr log).printErr message) := by
  unfold build
  rw [run_bind (run_readSource_of_text h)]
  simp only [hcompile]
  exact ⟨_, _, rfl⟩

theorem run_build_of_compile {text : String} {c : Compilation}
    (h : m.bytes? options.input = some text.toUTF8)
    (hcompile : compile (.ofText (sourceName options.input) text) = .ok c) :
    ∃ log, (build host options).run m =
      (writeListing host options.output (c.listing options.listings)).run (m.printErr log) := by
  unfold build
  rw [run_bind (run_readSource_of_text h)]
  simp only [hcompile]
  exact ⟨_, run_bind (run_err m _)⟩

/-- A run that is kept from writing only prints errors. -/
theorem run_build_of_refuses (h : m.Refuses options) :
    ∃ after, (build host options).run m = (1, after) ∧ after.out = m.out ∧
      after.files = m.files := by
  -- If the output cannot be opened, the run may have ended before that.
  by_cases htext : ∃ text : String, m.bytes? options.input = some text.toUTF8
  · obtain ⟨text, htext⟩ := htext
    cases hcompile : compile (.ofText (sourceName options.input) text) with
    | error failure =>
      obtain ⟨log, message, hrun⟩ := run_build_of_failure htext hcompile
      exact ⟨_, hrun, rfl, rfl⟩
    | ok c =>
      obtain ⟨log, hrun⟩ := run_build_of_compile htext hcompile
      obtain ⟨houtput, e, hopen⟩ := unwritable_of_refuses h htext hcompile
      obtain ⟨message, hwrite⟩ := @run_writeListing_of_error (m.printErr log) _ _ houtput hopen
        (c.listing options.listings)
      exact ⟨_, hrun.trans hwrite, rfl, rfl⟩
  · obtain ⟨message, hrun⟩ := run_build_of_no_text (not_exists.1 htext)
    exact ⟨_, hrun, rfl, rfl⟩

/-- Any other run has a text that compiles, and delivers its listing to an output that takes it. -/
theorem run_build_of_not_refuses (h : ¬ m.Refuses options) :
    ∃ (text : String) (c : Compilation), m.bytes? options.input = some text.toUTF8 ∧
      compile (.ofText (sourceName options.input) text) = .ok c ∧
      (m.Accepts options.output (c.listing options.listings) →
        ∃ after, (build host options).run m = (0, after) ∧
          m.Delivers after options.output (c.listing options.listings)) := by
  obtain ⟨text, htext⟩ := exists_text_of_not_refuses h
  cases hcompile : compile (.ofText (sourceName options.input) text) with
  | error failure => exact absurd (.notCompiled htext hcompile) h
  | ok c =>
    refine ⟨text, c, htext, hcompile, fun haccepts => ?_⟩
    have hopen : options.output = "-" ∨ ∃ place, m.files.toWrite options.output = .ok place := by
      by_cases houtput : options.output = "-"
      · exact .inl houtput
      · cases hplace : m.files.toWrite options.output with
        | error e => exact absurd (.unwritable houtput hplace) h
        | ok place => exact .inr ⟨place, rfl⟩
    obtain ⟨log, hrun⟩ := run_build_of_compile htext hcompile
    obtain ⟨after, hwrite, hdelivers⟩ := run_writeListing log hopen haccepts
    exact ⟨after, hrun.trans hwrite, hdelivers⟩

theorem allOrNothing_build (m : Machine) (options : Options) :
    ∃ status after, (build host options).run m = (status, after) ∧
      m.AllOrNothing options status after := by
  by_cases h : m.Refuses options
  · obtain ⟨after, hrun, hsame⟩ := run_build_of_refuses h
    exact ⟨1, after, hrun, fun _ => ⟨rfl, hsame⟩, fun hnot => absurd h hnot⟩
  · obtain ⟨text, c, htext, hcompile, hdeliver⟩ := run_build_of_not_refuses h
    obtain ⟨⟨status, after⟩, hrun⟩ : ∃ x, (build host options).run m = x := ⟨_, rfl⟩
    refine ⟨status, after, hrun, fun hrefuses => absurd hrefuses h, fun _ =>
      ⟨text, c, _, htext, hcompile, rfl, fun haccepts => ?_⟩⟩
    obtain ⟨after', hrun', hdelivers⟩ := hdeliver haccepts
    rw [hrun] at hrun'
    cases hrun'
    exact ⟨rfl, hdelivers⟩

end

end Machine

open Machine

theorem run_of_compile {arguments : List String} {options : Options} {m after : Machine}
    {status : Nat} (h : Request.ofArguments arguments = .ok (.compile options))
    (hbuild : (build host options).run m = (status, after)) :
    (run host arguments).run m = (.ok status, after) := by
  unfold run
  simp only [h]
  rw [run_bind hbuild]
  rfl

/-- A run is all or nothing. If the input cannot be read as text, the text does not compile or the
output cannot be opened, the exit status is 1 and neither the standard output nor any file changes.
Otherwise, if the output takes the whole listing, the exit status is 0 and the listing of the text
stands in the output, all else being unchanged. Arguments that ask for a compilation lead to such a
run, with the flags that are among them. -/
theorem run_all_or_nothing (m : Machine) (options : Options) :
    (∃ status after, (build host options).run m = (status, after) ∧
      m.AllOrNothing options status after) ∧
    ∀ arguments, Request.ofArguments arguments = .ok (.compile options) →
      (options.tree ↔ "--ast" ∈ optionArguments arguments) ∧
      (options.noCode ↔ "--no-ir" ∈ optionArguments arguments) ∧
      (options.noTarget ↔ "--no-target" ∈ optionArguments arguments) ∧
      ∃ status after, (run host arguments).run m = (.ok status, after) ∧
        m.AllOrNothing options status after := by
  obtain ⟨status, after, hrun, hall⟩ := allOrNothing_build m options
  refine ⟨⟨status, after, hrun, hall⟩, fun arguments h => ?_⟩
  obtain ⟨htree, hcode, htarget⟩ := flags_of_arguments h
  exact ⟨htree, hcode, htarget, status, after, run_of_compile h hrun, hall⟩

/-- A program in a file `p`. -/
def shortText : String :=
  "PROGRAM p BEGIN INT a; FUNCTION VOID main() BEGIN WRITE(a); END END"

/-- A machine with that file and nothing on its standard input. -/
def shortMachine : Machine := .ofFiles ByteArray.empty [("p", shortText.toUTF8)]

/-- The file is overwritten with its own compilation. -/
theorem run_all_or_nothing_overwriting :
    Request.ofArguments ["-o", "p", "p"] = .ok (.compile { input := "p", output := "p" }) ∧
    ∃ after, (run host ["-o", "p", "p"]).run shortMachine = (.ok 0, after) ∧
      after.load "p" = .ok ";WRITEI var0a\n\nvar var0a\nsys writei var0a\n".toUTF8 ∧
      after.out = "" := by
  have harguments : Request.ofArguments ["-o", "p", "p"] =
      .ok (.compile { input := "p", output := "p" }) := by
    decide +kernel
  have hbytes : shortMachine.bytes? "p" = some shortText.toUTF8 := by decide +kernel
  have hlisting : ((compile (.ofText (sourceName "p") shortText)).toOption.bind
      fun c => some (c.listing {})) =
      some ";WRITEI var0a\n\nvar var0a\nsys writei var0a\n" := by decide +kernel
  have hpath : (shortMachine.files.toWrite "p").toOption.bind Place.path? =
      some ["tmp", "work", "p"] := by decide +kernel
  obtain ⟨place, hplace, hplacePath⟩ := exists_of_toOption_bind hpath
  obtain ⟨c, hcompile, hc⟩ := exists_of_toOption_bind hlisting
  have hallowed : ¬ shortMachine.Refuses { input := "p", output := "p" } := by
    intro hrefuses
    obtain ⟨-, e, hopen⟩ := unwritable_of_refuses hrefuses hbytes hcompile
    rw [hplace] at hopen
    cases hopen
  obtain ⟨-, hreader⟩ := run_all_or_nothing shortMachine { input := "p", output := "p" }
  obtain ⟨-, -, -, status, after, hrun, hdone⟩ := hreader _ harguments
  obtain ⟨text, c', listing, htext, hcompile', hlisting', hdelivered⟩ := hdone.all hallowed
  rw [hbytes] at htext
  rw [← String.toByteArray_inj.1 (Option.some.inj htext), hcompile] at hcompile'
  cases hcompile'
  have haccepts : shortMachine.Accepts "p" listing := by
    refine .inr (.inl ?_)
    rw [hplace]
    rintro ⟨⟩
    cases hplacePath
  obtain ⟨rfl, hdelivers⟩ := hdelivered haccepts
  refine ⟨harguments, after, hrun, ?_⟩
  obtain rfl : listing = _ := hlisting'.trans (Option.some.inj hc)
  cases hdelivers with
  | standard h => exact absurd h (by decide)
  | file h hplace hpath hload hcontent hothers hout => exact ⟨hload, hout⟩
  | device h hdevice =>
    rw [hplace] at hdevice
    cases hdevice
    cases hplacePath

end LittleTiny.Command
