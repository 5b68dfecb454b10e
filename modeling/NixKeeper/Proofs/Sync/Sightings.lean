import NixKeeper.Proofs.Sync.Usage

/-!
The texts of its snapshot that a session has seen, and the one that it remembers.

A session remembers the last text that it wrote or understood. A text that it read and did not
understand leaves no trace, so a save that is skipped afterwards leaves that text where it is.
-/

namespace NixKeeper

/-- A text of the snapshot that a session has read or written. -/
structure Sighting where
  text : String
  /-- The session has written the text itself, or it has understood what it read. -/
  trusted : Bool

/-- The last text of several that is trusted. -/
def lastTrusted (sightings : List Sighting) : Option Sighting :=
  (sightings.filter Sighting.trusted).getLast?

/-- What is trusted among later texts comes before what is trusted among earlier ones. -/
theorem lastTrusted_append (earlier later : List Sighting) :
    lastTrusted (earlier ++ later) = (lastTrusted later).or (lastTrusted earlier) := by
  -- A later sighting counts before an earlier one.
  rw [lastTrusted, List.filter_append, List.getLast?_append, lastTrusted, lastTrusted]

/-- A text that is trusted is the last one that is. -/
theorem lastTrusted_of_getLast? {sightings : List Sighting} {last : Sighting}
    (atEnd : sightings.getLast? = some last) (trusted : last.trusted = true) :
    lastTrusted sightings = some last := by
  obtain ⟨earlier, rfl⟩ := List.getLast?_eq_some_iff.1 atEnd
  -- The filter keeps the last one.
  simp [lastTrusted, trusted]

/-- The text last seen is the one last trusted, unless it is another one that is not trusted. -/
theorem text_getLast?_iff {sightings : List Sighting} {known : Sighting}
    (found : lastTrusted sightings = some known) :
    sightings.getLast?.map (·.text) = some known.text ↔
      ∀ last, sightings.getLast? = some last → last.trusted = false → last.text = known.text := by
  cases atEnd : sightings.getLast? with
  | none =>
    rw [List.getLast?_eq_none_iff.1 atEnd] at found
    cases found
  | some last =>
    rw [Option.map_some, Option.some.injEq]
    constructor
    · rintro text other ⟨⟩ -
      exact text
    · intro garbled
      -- A last text that is trusted is the one last trusted.
      cases understood : last.trusted with
      | false => exact garbled last rfl understood
      | true =>
        rw [lastTrusted_of_getLast? atEnd understood] at found
        rw [Option.some.inj found]

namespace Session

section

variable {σ : Type} {session : Session σ}

/-- What a session remembers after it has seen some texts. -/
def Recalls (session later : Session σ) (sightings : List Sighting) : Prop :=
  -- The checksum is that of the last text that was trusted, or it is the old one.
  later.checksum =
    ((lastTrusted sightings).map fun sighting => Sha256.checksum sighting.text).or session.checksum

/-- Who has seen nothing remembers what was known before. -/
theorem Recalls.refl (session : Session σ) : session.Recalls session [] :=
  -- Nothing was sighted, so the checksum is as it was.
  (Option.none_or).symm

/-- What is remembered in one step and in the next is remembered in both. -/
theorem Recalls.trans {middle later : Session σ} {first second : List Sighting}
    (before : session.Recalls middle first) (behind : middle.Recalls later second) :
    session.Recalls later (first ++ second) := by
  unfold Recalls at before behind ⊢
  -- The later sightings count first, and the earlier ones where they leave the checksum.
  rw [behind, before, lastTrusted_append, Option.map_or, Option.or_assoc]

end

section

variable {σ : Type} [Storage σ]

/-- The text that a load reads. -/
def readText (session : Session σ) : List Sighting :=
  -- A text that was read is trusted if a model was read from it.
  match Storage.readOptional session.store session.snapshotPath with
  | .ok (some text) => [⟨text, (Model.schema.parse session.snapshotPath text).isOk⟩]
  | _ => []

/-- The text that is written to save a model. -/
def writtenText (session : Session σ) (model : Model) : List Sighting :=
  -- A text that was written is trusted.
  match Model.schema.render session.snapshotPath model, (session.saveSnapshot model).1 with
  | .ok text, .ok true => [⟨text, true⟩]
  | _, _ => []

/-- The texts of the snapshot that are read or written by an operation. -/
def textsOf (session : Session σ) : Operation → List Sighting
  | .load => session.readText
  | .save model => session.writtenText model
  | .sync model dryRun =>
    match session.prepare model with
    | .error _ => []
    | .ok files =>
      if dryRun then []
      -- The model is saved when the other files have been written.
      else
        ({ session with store := (writeFiles session.store .empty files).2 } : Session σ).writtenText
          model

/-- The texts of the snapshot that are read or written in the course of events, the latest one last. -/
def textsAlong (session : Session σ) : List (Event σ) → List Sighting
  | [] => []
  | .used operation :: rest => session.textsOf operation ++ (session.after operation).textsAlong rest
  -- A change from outside shows the session no text.
  | .changed change :: rest => (session.meet (.changed change)).textsAlong rest

variable {session : Session σ} {model : Model}

/-- A load remembers the text that it reads if it understands it. -/
theorem recalls_load (session : Session σ) :
    session.Recalls session.load.2 session.readText := by
  rw [Recalls, load_snd, readSnapshot, readText]
  -- The text that is read is the only one seen, and is trusted if it is understood.
  cases Storage.readOptional session.store session.snapshotPath with
  | error error => rfl
  | ok found =>
    cases found with
    | none => rfl
    | some text => cases parsed : Model.schema.parse session.snapshotPath text <;>
        simp [parsed, lastTrusted, Except.isOk, Except.toBool]

/-- A load passes over a text that it does not understand. -/
theorem after_load_of_garbled {garbled : String}
    (read : Storage.readOptional session.store session.snapshotPath = .ok (some garbled))
    (unparsed : (Model.schema.parse session.snapshotPath garbled).isOk = false) :
    session.after .load = session ∧ session.textsOf .load = [⟨garbled, false⟩] := by
  rw [textsOf, readText, read, after, load_snd, readSnapshot, read]
  dsimp only
  rw [unparsed]
  -- What is not understood is not remembered.
  cases parsed : Model.schema.parse session.snapshotPath garbled with
  | error error => exact ⟨rfl, rfl⟩
  | ok model =>
    rw [parsed] at unparsed
    cases unparsed

/-- A save remembers the text that it writes. -/
theorem recalls_saveSnapshot (session : Session σ) (model : Model) :
    session.Recalls (session.saveSnapshot model).2 (session.writtenText model) := by
  unfold Recalls writtenText saveSnapshot
  dsimp only
  cases Model.schema.render session.snapshotPath model with
  | error error => rfl
  | ok content =>
    dsimp only
    split
    · rfl
    · -- A write that fails leaves what is remembered.
      cases Storage.write session.store session.snapshotPath content with
      | mk result store => cases result <;> rfl

/-- A plan that is carried out ends with saving the model. -/
theorem perform_snd (session : Session σ) (model : Model) (files : List PlannedFile) :
    (session.perform model files).2 =
      (({ session with store := (writeFiles session.store .empty files).2 } : Session σ).saveSnapshot
        model).2 := by
  unfold perform
  dsimp only
  -- Whatever the save answers, the session is left as it leaves it.
  cases ({ session with store := (writeFiles session.store .empty files).2 } : Session σ).saveSnapshot
    model with
  | mk result later =>
    cases result with
    | error error => rfl
    | ok saved => cases saved <;> rfl

/-- A session remembers what it has seen in an operation. -/
theorem recalls_after (session : Session σ) (operation : Operation) :
    session.Recalls (session.after operation) (session.textsOf operation) := by
  -- A sync sees the text that it writes when it ends with saving the model.
  cases operation with
  | load => exact recalls_load session
  | save model => exact recalls_saveSnapshot session model
  | sync model dryRun =>
    rw [after, textsOf, sync]
    cases session.prepare model with
    | error error => exact .refl session
    | ok files =>
      cases dryRun with
      | true => exact .refl session
      | false =>
        have saved := recalls_saveSnapshot
          ({ session with store := (writeFiles session.store .empty files).2 } : Session σ) model
        rw [← perform_snd] at saved
        dsimp only
        rw [if_neg Bool.false_ne_true, if_neg Bool.false_ne_true]
        cases performed : session.perform model files with
        | mk report later =>
          -- Writing the other files changes nothing that is remembered.
          rw [performed] at saved
          exact saved

/-- A session remembers what it has seen, whatever others have done to the files. -/
theorem recalls_foldl_meet (session : Session σ) (events : List (Event σ)) :
    session.Recalls (events.foldl meet session) (session.textsAlong events) := by
  induction events generalizing session with
  | nil => rfl
  | cons event rest ih =>
    cases event with
    | used operation => exact (recalls_after session operation).trans (ih (session.after operation))
    | changed change =>
      -- Nobody tells the session, so it remembers what it did before.
      exact ih (session.meet (.changed change))

/-- A save is skipped only if the text is remembered that would be written. -/
theorem checksum_of_skipped {content : String}
    (rendered : Model.schema.render session.snapshotPath model = .ok content)
    (skipped : (session.saveSnapshot model).1 = .ok false) :
    session.checksum = some (Sha256.checksum content) := by
  unfold saveSnapshot at skipped
  dsimp only at skipped
  rw [rendered] at skipped
  dsimp only at skipped
  split at skipped
  · rename_i known
    exact known.1
  · -- Otherwise the text is written, or the write fails.
    cases written : Storage.write session.store session.snapshotPath content with
    | mk result store =>
      rw [written] at skipped
      cases result <;> cases skipped

/--
A save is skipped only where the text last written or understood is the one that would be written.

So the text last seen is that one, unless it was read and not understood: of such a text nothing is
remembered, and it stays where it is.
-/
theorem last_text_of_skipped_save (opened : session.checksum = none) (events : List (Event σ))
    {content : String} :
    let reached := events.foldl meet session
    let sightings := session.textsAlong events
    Model.schema.render reached.snapshotPath model = .ok content →
    (reached.saveSnapshot model).1 = .ok false →
    (∀ sighting ∈ sightings, sighting.trusted = true →
      Sha256.checksum sighting.text = Sha256.checksum content → sighting.text = content) →
    (lastTrusted sightings).map (·.text) = some content ∧
      (sightings.getLast?.map (·.text) = some content ↔
        ∀ last, sightings.getLast? = some last → last.trusted = false → last.text = content) := by
  intro reached sightings rendered skipped noCollision
  have recalls := recalls_foldl_meet session events
  rw [Recalls, checksum_of_skipped rendered skipped, opened, Option.or_none] at recalls
  -- The checksum that is remembered is that of some text, which is then the one to be written.
  obtain ⟨sighting, found, same⟩ := Option.map_eq_some_iff.1 recalls.symm
  obtain ⟨among, trusted⟩ := List.mem_filter.1 (List.mem_of_getLast? found)
  obtain rfl := noCollision sighting among trusted same
  exact ⟨by rw [found, Option.map_some], text_getLast?_iff found⟩

end

section

variable {session : Session Memory}

/-- A model that is saved where nothing was remembered is written, and then it is remembered. -/
theorem exists_saved_opened (faultless : session.store.Faultless)
    (json : session.snapshotPath.format = .ok .json) (opened : session.checksum = none)
    (model : Model) :
    session.textsOf (.save model) = [⟨Json.pretty model.document, true⟩] ∧
      ∃ store checksum, session.after (.save model) = { session with store, checksum } ∧
        session.Saved model store checksum := by
  obtain ⟨saved, store, checksum, shape, kept⟩ := exists_saved faultless json model
  -- With nothing remembered, no text can be taken for the one that is there.
  have written : session.saving model = .ok (some (Json.pretty model.document)) := by
    rw [saving_eq faultless json, opened, if_neg fun known => nomatch known.1]
  refine ⟨?_, store, checksum, by rw [after, shape], kept⟩
  rw [textsOf]
  unfold writtenText
  rw [Model.schema_render json, saveSnapshot_eq, written]
  rfl

/-- A text that is written over a snapshot and cannot be understood keeps a save from being made. -/
theorem skipped_over_garbled (faultless : session.store.Faultless)
    (json : session.snapshotPath.format = .ok .json) (opened : session.checksum = none)
    (model : Model) {garbled : String}
    (unparsed : (Model.schema.parse session.snapshotPath garbled).isOk = false) :
    let events := [Event.used (.save model),
      .changed fun store => store.edited session.snapshotPath fun _ => garbled, .used .load]
    ((events.foldl meet session).saveSnapshot model).1 = .ok false ∧
      session.textsAlong events = [⟨Json.pretty model.document, true⟩, ⟨garbled, false⟩] := by
  intro events
  obtain ⟨written, store, checksum, shape, saved⟩ := exists_saved_opened faultless json opened model
  -- The session as it is after the save and the edit; the load leaves it as it is.
  obtain ⟨edited, same⟩ : ∃ edited : Session Memory, edited =
    { session with store := store.edited session.snapshotPath fun _ => garbled, checksum } := ⟨_, rfl⟩
  have place : edited.snapshotPath = session.snapshotPath := by rw [same]; rfl
  have remembers : edited.checksum = some (Sha256.checksum (Json.pretty model.document)) := by
    rw [same]
    exact saved.remembers
  have laterFaultless : edited.store.Faultless := by
    rw [same]
    exact saved.faultless.edited _ _
  have there : edited.store.file? edited.snapshotPath = some garbled := by
    obtain ⟨text, found⟩ := Option.isSome_iff_exists.1 saved.present
    rw [place, same]
    dsimp only
    rw [Memory.file?_edited, if_pos rfl, found, Option.map_some]
  obtain ⟨loaded, read⟩ := @after_load_of_garbled Memory _ edited garbled
    (by rw [laterFaultless.readOptional, there]) (by rw [place]; exact unparsed)
  have met : (session.after (.save model)).meet
      (.changed fun store => store.edited session.snapshotPath fun _ => garbled) = edited := by
    rw [shape, same]
    rfl
  constructor
  · have reached : events.foldl meet session = edited := by
      rw [List.foldl_cons, List.foldl_cons, meet, met, List.foldl_cons, List.foldl_nil, meet, loaded]
    have kept : edited.saving model = .ok none := by
      rw [saving_eq laterFaultless (by rw [place]; exact json), if_pos ⟨remembers, by rw [there]; rfl⟩]
    rw [reached, saveSnapshot_eq, kept]
    rfl
  · rw [textsAlong, textsAlong, textsAlong, textsAlong, met, written, read]
    rfl

end

/-- A model that is saved in a fresh place is remembered by the text that was written. -/
theorem last_text_of_skipped_save_initial :
    let session := withSettings (Memory.ofFiles .empty) (.ofText "etc") .initial
    let sightings := session.textsAlong [.used (.save .initial)]
    (lastTrusted sightings).map (·.text) = some (Json.pretty Model.initial.document) ∧
      (sightings.getLast?.map (·.text) = some (Json.pretty Model.initial.document) ↔
        ∀ last, sightings.getLast? = some last → last.trusted = false →
          last.text = Json.pretty Model.initial.document) := by
  intro session sightings
  have json : session.snapshotPath.format = .ok .json := by decide
  obtain ⟨written, store, checksum, shape, saved⟩ :=
    @exists_saved_opened session ⟨rfl, rfl⟩ json rfl .initial
  -- The text that the save has written is the only one seen.
  have seen : sightings = [⟨Json.pretty Model.initial.document, true⟩] := by
    change session.textsOf (.save .initial) ++ [] = _
    rw [written, List.append_nil]
  refine @last_text_of_skipped_save Memory _ session .initial rfl [.used (.save .initial)] _ ?_ ?_ ?_
  · change Model.schema.render (session.after (.save .initial)).snapshotPath .initial = _
    rw [shape]
    exact Model.schema_render json .initial
  · change ((session.after (.save .initial)).saveSnapshot .initial).1 = _
    rw [shape, saveSnapshot_eq, saved.saving_eq_none json]
    rfl
  · change ∀ sighting ∈ sightings, _
    rw [seen]
    exact List.forall_mem_singleton.2 fun _ _ => rfl

/-- A save is skipped over a text that somebody else has written and that could not be understood. -/
theorem skipped_save_over_garbled_snapshot :
    let session := withSettings (Memory.ofFiles .empty) (.ofText "etc") .initial
    let events := [Event.used (.save .initial),
      .changed fun store => store.edited session.snapshotPath fun _ => "\x7b", .used .load]
    ((events.foldl meet session).saveSnapshot .initial).1 = .ok false ∧
      (session.textsAlong events).getLast?.map (·.text) = some "\x7b" ∧
        Model.schema.render session.snapshotPath .initial ≠ .ok "\x7b" := by
  intro session events
  have json : session.snapshotPath.format = .ok .json := by decide
  have unread : Json.parse? "\x7b" = none := by decide
  have unparsed := Model.isOk_schema_parse json unread
  obtain ⟨skipped, seen⟩ := @skipped_over_garbled session ⟨rfl, rfl⟩ json rfl .initial _ unparsed
  refine ⟨skipped, by rw [seen]; rfl, fun same => ?_⟩
  -- The text of the initial model is understood, so it is another one.
  rw [Model.schema_render json, Except.ok.injEq] at same
  rw [← same, Model.schema_parse_pretty json Model.floatFree_initial] at unparsed
  cases unparsed

end Session

end NixKeeper
