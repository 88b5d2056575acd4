import NinjaFile.Proofs.Session.Counts
import NinjaFile.Proofs.Session.Saves
import NinjaFile.Proofs.Session.Short

/-!
# The journal is the history of the saves

What a save puts into the journal can be told from the state in front of it
(`Session.recordsOfSave`): whether its file can be opened, whether the file holds the
text already, and how many rules and edges a manifest of the document has. The journal of
a session is the one that it started with, followed by these records in order
(`Run.records_steps`).

The only other steps that write to the journal are those that log a record of their own.
-/

namespace NinjaFile

theorem Manifest.exists_ofDocument {d : Document} {text : String} (h : d.render = .ok text) :
    ∃ m, ofDocument d = .ok m := by
  rw [ofDocument, Document.digest, h]
  exact ⟨_, rfl⟩

/-! ## One save -/

namespace Session

def holdsText (s : Session) (p : Path) : Bool :=
  match s.storage.read p, s.document.render with
  | .ok held, .ok text => held == Octets.ofText text
  | _, _ => false

/-- The records that a save is to leave: none if its file cannot be opened, and otherwise one, which
tells whether the file was left alone because it holds the text already. -/
def recordsOfSave (s : Session) (p : Path) (flag : Option Bool) : List Record :=
  match s.storage.writable p, Manifest.ofDocument s.document with
  | .ok _, .ok m =>
    if flag.getD s.onlyIfChanged && s.holdsText p then
      [{ operation := "save_skipped"
         path := some p.toString
         message := "Existing file is up to date." }]
    else
      [{ operation := "save"
         path := some p.toString
         message := "Wrote Ninja file."
         extra := some (.record
          [("rules", .int m.rules.length), ("edges", .int m.edges.length)]) }]
  | _, _ => []

variable {s : Session} {p : Path} {text : String}

theorem holdsText_iff (hText : s.document.render = .ok text) :
    s.holdsText p = true ↔ s.storage.read p = .ok (Octets.ofText text) := by
  rw [holdsText, hText]
  cases s.storage.read p with
  | error refusal => simp
  | ok held => simp

/-- **One save.** Behind it the journal has the records that it is to leave, whether the callback
gives up or not. -/
theorem records_save (hCounted : s.Counted) (hText : s.document.render = .ok text) (p : Path)
    (flag : Option Bool) (callback : Option Callback) :
    (s.save p flag callback).1.journal.records =
      s.journal.records ++ s.recordsOfSave p flag := by
  obtain ⟨m, hTaken⟩ := Manifest.exists_ofDocument hText
  rcases save_cases hText p flag callback with
    ⟨refusal, hWrite, hSave⟩ | ⟨hFlag, hRead, hSave⟩ | ⟨storage, hWrite, hDiffers, hSave⟩
  · have hClosed := Storage.writable_of_write.1 refusal hWrite
    rw [hSave, recordsOfSave, hClosed, List.append_nil]
    rfl
  · obtain ⟨location, hOpen, -⟩ := Storage.writable_of_read hRead
    have hHeld := (holdsText_iff hText).2 hRead
    simp only [hSave, recordsOfSave, hOpen, hTaken, hFlag, hHeld, Bool.and_self, if_true]
    rw [skipped, fst_finish]
    rfl
  · obtain ⟨location, hOpen⟩ := Storage.writable_of_write.2 storage hWrite
    have hChanged : ¬(flag.getD s.onlyIfChanged && s.holdsText p) = true := by
      intro h
      obtain ⟨hFlag, hHeld⟩ := Bool.and_eq_true_iff.1 h
      exact hDiffers hFlag ((holdsText_iff hText).1 hHeld)
    obtain ⟨hRules, hEdges⟩ := Manifest.length_of_ofDocument hTaken
    simp only [hSave, recordsOfSave, hOpen, hTaken, if_neg hChanged]
    rw [wrote, fst_finish, hRules, hEdges, ← hCounted.rules, ← hCounted.edges]
    rfl

end Session

/-! ## Runs -/

namespace Run

def recordsOf (r : Run) : Step → List Record
  | .save path flag _ => r.session.recordsOfSave path flag
  | .log record => [record]
  | _ => []

def history : Run → List Step → List Record
  | _, [] => []
  | r, s :: rest => r.recordsOf s ++ history (r.step s).1 rest

/-- **One step.** -/
theorem records_step {r : Run} (hReachable : r.Reachable) (hDocument : r.session.document.Short)
    (s : Step) :
    (r.step s).1.session.journal.records = r.session.journal.records ++ r.recordsOf s := by
  cases s with
  | save path flag callback =>
      obtain ⟨text, hText⟩ := hDocument.exists_render
      exact Session.records_save hReachable.counted hText path flag callback
  | edit | takeManifest | showManifest | exportJson | exportCbor | placeFile =>
      simp only [step, recordsOf, List.append_nil]
      repeat' split
      all_goals rfl
  | log record => rfl
  | _ => exact (List.append_nil _).symm

/-- **The journal is the history of the saves.** Behind any steps of a session without long integers
it has the records that it started with, followed by those of the saves in order: one for each save
that could open its file, and none for any other. -/
theorem records_steps {r : Run} (hReachable : r.Reachable) (hDocument : r.session.document.Short)
    {steps : List Step} (hShort : ∀ s ∈ steps, s.isShort = true) :
    (r.steps steps).1.session.journal.records =
      r.session.journal.records ++ r.history steps := by
  induction steps generalizing r with
  | nil => exact (List.append_nil _).symm
  | cons s rest ih =>
      have hRest := ih (hReachable.step s) (short_step hDocument (hShort s List.mem_cons_self))
        fun t ht => hShort t (List.mem_cons_of_mem _ ht)
      calc (r.steps (s :: rest)).1.session.journal.records
          _ = (r.step s).1.session.journal.records ++ (r.step s).1.history rest := hRest
          _ = r.session.journal.records ++ r.recordsOf s ++ (r.step s).1.history rest := by
            rw [records_step hReachable hDocument s]
          _ = r.session.journal.records ++ r.history (s :: rest) := by
            rw [List.append_assoc, history]

def booted : Run where
  session := Session.ofConfig { onlyIfChanged := true }
    (Journal.log {} { operation := "boot", path := none, message := "boot" })

/-- A refused edge, a save to a directory that is not there, and two saves with a callback that gives
up, the second of which has nothing to write. -/
def attempts : List Step :=
  [.edit (.edge (.many [])), .edit (.rule "cc"), .save ⟨["out", "build.ninja"]⟩ none none,
    .save ⟨["build.ninja"]⟩ none (some fun _ => .error .callbackFailed),
    .save ⟨["build.ninja"]⟩ none (some fun _ => .error .callbackFailed)]

/-- Only the last two of these leave records. -/
theorem records_steps_small :
    (booted.steps attempts).1.session.journal.records =
        booted.session.journal.records ++ booted.history attempts ∧
      (booted.history attempts).map (fun r => (r.operation, r.path, r.extra.isSome)) =
        [("save", some "build.ninja", true), ("save_skipped", some "build.ninja", false)] := by
  constructor
  · refine records_steps (.start { onlyIfChanged := true } _ {}) ?_ ?_
    · exact Document.short_of_no_bindings rfl rfl
    · simp [attempts, Step.isShort, Document.Edit.isShort]
  · decide +kernel

end Run

end NinjaFile
