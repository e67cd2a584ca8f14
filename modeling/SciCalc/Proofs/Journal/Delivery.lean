import SciCalc.Proofs.Journal.Sources

/-! # What a journal writes after it has been set up

Setting the journal up replaces all levels and handlers, whatever they were, so from then on a
record is written once or not at all. Which of the two it is depends on where its source stands
among the sources, on the level, and on what the source answered when it was first asked for
that level. A level that is too long to be named is written nowhere. The file, if there is one,
gets the same lines as the console.
-/

namespace SciCalc.Journal

/-- A record and the time at which it comes in. -/
structure Sent where
  clock : String
  record : Record

def Sent.line (sent : Sent) : String := Journal.line sent.clock sent.record

/-- The journal after records have come in. -/
def logAll (journal : Journal) (sent : List Sent) : Journal :=
  sent.foldl (fun journal sent => journal.log sent.clock sent.record) journal

/-- What happens to a journal that writes to the same file throughout, if to any. -/
inductive Call where
  | setUp (clock : String) (level : Int)
  | log (sent : Sent)

def Call.apply (toFile : Bool) (journal : Journal) : Call → Journal
  | .setUp clock level => journal.setUp clock level toFile
  | .log sent => journal.log sent.clock sent.record

/-- The journal after calls made in turn. -/
def afterCalls (toFile : Bool) (calls : List Call) : Journal :=
  calls.foldl (Call.apply toFile) .initial

/-! ## Which records are written -/

/-- The least level that is let through where the level has been set. -/
def threshold (level : Int) : Int := if level = 0 then Level.warning else level

/-- The records that came in before the first with the source and level of the given one. -/
def beforeFirst (record : Record) (earlier : List Record) : List Record :=
  earlier.takeWhile (·.question != record.question)

/-- The sources that have been met when records have come in after others. -/
def metAfter (known : List String) (earlier : List Record) : List String :=
  known ++ earlier.map (·.source)

/-- Whether a record is written by a journal that was set up with the level, had met the known
sources before, and has got the earlier records since. Its source has to belong to the
calculator, and its level has to be the threshold at least and to have a name. The source must have
let the level through the first time: if it did not belong to the calculator then, the root
decided. -/
def Passes (known : List String) (level : Int) (earlier : List Record) (record : Record) : Prop :=
  0 < record.level ∧ record.level < tenPow Numeral.greatestDigits ∧
    threshold level ≤ record.level ∧
    Belongs (metAfter known earlier) record.source ∧
    (Belongs (metAfter known (beforeFirst record earlier)) record.source ∨
      Level.warning ≤ record.level)

instance (known : List String) (level : Int) (earlier : List Record) (record : Record) :
    Decidable (Passes known level earlier record) :=
  inferInstanceAs (Decidable (_ ∧ _ ∧ _ ∧ _ ∧ (_ ∨ _)))

/-- For a source without two points next to each other in its name nothing depends on what came
before. -/
theorem passes_iff_named?_stem (known : List String) (level : Int) (earlier : List Record)
    {record : Record} (hpoints : ¬ ['.', '.'] <:+: record.source.toList) :
    Passes known level earlier record ↔
      0 < record.level ∧ record.level < tenPow Numeral.greatestDigits ∧
        threshold level ≤ record.level ∧
        (Component.named? (String.ofList (stem record.source.toList))).isSome := by
  simp only [Passes, belongs_iff_named?_stem hpoints]
  refine and_congr_right fun _ => and_congr_right fun _ => and_congr_right fun _ => ?_
  exact and_iff_left_of_imp Or.inl

/-- One record, if it is written. -/
def passing (known : List String) (level : Int) (earlier : List Record) (sent : Sent) : List Sent :=
  if Passes known level earlier sent.record then [sent] else []

/-- The records that are written, in their order. -/
def delivered (known : List String) (level : Int) : List Record → List Sent → List Sent
  | _, [] => []
  | earlier, sent :: rest =>
    passing known level earlier sent ++ delivered known level (earlier ++ [sent.record]) rest

/-! ## What is asked first -/

variable {known : List String} {level : Int} {toFile : Bool} {earlier : List Record}
  {journal : Journal} {record : Record}

theorem beforeFirst_of_not_mem (hfirst : record.question ∉ earlier.map (·.question)) :
    beforeFirst record earlier = earlier := by
  refine List.takeWhile_eq_self_iff.mpr fun other hother => bne_iff_ne.mpr ?_
  intro hsame
  exact hfirst (hsame ▸ List.mem_map_of_mem hother)

/-- What comes in later does not change which record was the first. -/
theorem beforeFirst_concat_of_mem (hasked : record.question ∈ earlier.map (·.question))
    (last : Record) : beforeFirst record (earlier ++ [last]) = beforeFirst record earlier := by
  obtain ⟨first, hfirst, hsame⟩ := List.mem_map.mp hasked
  exact takeWhile_append_of_mem (by rw [hsame, bne_self_eq_false]) hfirst [last]

theorem beforeFirst_concat_of_eq (hfirst : record.question ∉ earlier.map (·.question))
    {last : Record} (hlast : last.question = record.question) :
    beforeFirst record (earlier ++ [last]) = earlier :=
  (takeWhile_append_cons (by rw [hlast, bne_self_eq_false]) earlier []).trans
    (beforeFirst_of_not_mem hfirst)

/-! ## The journal since a set-up -/

theorem le_of_threshold_le {level passed : Int} (hpositive : 0 < passed)
    (hthreshold : threshold level ≤ passed) : level ≤ passed := by
  unfold threshold at hthreshold
  split at hthreshold <;> omega

theorem threshold_le {level passed : Int} (hlevel : level ≤ passed)
    (hwarning : Level.warning ≤ passed) : threshold level ≤ passed := by
  unfold threshold
  split <;> assumption

theorem isWritable_iff_of_pos {level : Int} (hpositive : 0 < level) :
    Numeral.isWritable level = true ↔ level < tenPow Numeral.greatestDigits := by
  rw [Numeral.isWritable_iff, ← Int.ofNat_lt, Int.natAbs_of_nonneg (Int.le_of_lt hpositive)]

/-- The channels after a set-up. -/
def channelsOf (level : Int) (toFile : Bool) : List (Component × Channel) :=
  Component.all.map fun component => (component, ⟨level, handlersOf level toFile, false⟩)

/-- The least level that a source lets through if it is asked after records have come in. -/
def leastOf (known : List String) (level : Int) (earlier : List Record) (source : String) : Int :=
  if Belongs (metAfter known earlier) source then threshold level else Level.warning

/-- What is true of a journal that has been set up and has got records since: the channels are
those of the set-up, and every answer is the one that was given first. -/
structure StandsAfter (known : List String) (level : Int) (toFile : Bool)
    (earlier : List Record) (journal : Journal) : Prop where
  channels : journal.channels = channelsOf level toFile
  sources : journal.sources = metAfter known earlier
  asked : journal.answers.map (·.1) = earlier.map (·.question)
  answer : ∀ record, journal.answer record =
    decide (0 < record.level ∧
      leastOf known level (beforeFirst record earlier) record.source ≤ record.level)

theorem lookup_channelsOf (component : Component) :
    (channelsOf level toFile).lookup component =
      some ⟨level, handlersOf level toFile, false⟩ := by
  cases component <;> rfl

theorem channelOf_eq (hchannels : journal.channels = channelsOf level toFile) (source : String) :
    journal.channelOf source =
      if Belongs journal.sources source then ⟨level, handlersOf level toFile, false⟩
      else .untouched := by
  simp only [channelOf, hchannels, ← isSome_componentOf?_iff]
  cases componentOf? journal.sources source with
  | none => rfl
  | some component => exact congrArg (Option.getD · _) (lookup_channelsOf component)

theorem admits_channelOf (hchannels : journal.channels = channelsOf level toFile)
    (hsources : journal.sources = metAfter known earlier) (record : Record) :
    (journal.channelOf record.source).admits record.level =
      decide (0 < record.level ∧ leastOf known level earlier record.source ≤ record.level) := by
  rw [channelOf_eq hchannels, hsources, leastOf, Channel.admits, Bool.decide_and]
  split <;> rfl

theorem targets_channelOf (hchannels : journal.channels = channelsOf level toFile)
    (record : Record) :
    (journal.channelOf record.source).targets record.level =
      if Belongs journal.sources record.source ∧ level ≤ record.level then
        .console :: if toFile then [.file] else []
      else [] := by
  rw [channelOf_eq hchannels]
  by_cases hbelongs : Belongs journal.sources record.source
  · by_cases hlevel : level ≤ record.level <;>
      cases toFile <;> simp [Channel.targets, handlersOf, hbelongs, hlevel]
  · rw [if_neg hbelongs, if_neg fun hboth => hbelongs hboth.1]
    rfl

namespace StandsAfter

variable (hstands : StandsAfter known level toFile earlier journal)
include hstands

theorem lookup_eq_none_iff (record : Record) :
    journal.answers.lookup record.question = none ↔
      record.question ∉ earlier.map (·.question) := by
  rw [← hstands.asked, List.lookup_eq_none_iff, List.mem_map, not_exists]
  refine forall_congr' fun asked => ?_
  rw [not_and, bne_iff_ne]
  exact imp_congr_right fun _ => ne_comm

theorem sources_noted (last : Record) :
    (journal.noted last).sources = metAfter known (earlier ++ [last]) := by
  simp [Journal.noted, hstands.sources, metAfter]

/-- The first answer to a question is kept. -/
theorem noted (last : Record) :
    StandsAfter known level toFile (earlier ++ [last]) (journal.noted last) where
  channels := hstands.channels
  sources := hstands.sources_noted last
  asked := by simp [Journal.noted, hstands.asked]
  answer := by
    intro record
    have hlookup : (journal.noted last).answers.lookup record.question =
        (journal.answers.lookup record.question).or
          ([(last.question, journal.answer last)].lookup record.question) :=
      List.lookup_append
    by_cases hasked : record.question ∈ earlier.map (·.question)
    · -- The answer is there already.
      obtain ⟨answer, hanswer⟩ := Option.ne_none_iff_exists'.mp
        (mt (hstands.lookup_eq_none_iff record).mp (not_not.mpr hasked))
      rw [beforeFirst_concat_of_mem hasked, ← hstands.answer, Journal.answer, Journal.answer,
        hlookup, hanswer]
      rfl
    · have hanswer := (hstands.lookup_eq_none_iff record).mpr hasked
      rw [Journal.answer, hlookup, hanswer, Option.none_or]
      by_cases hlast : last.question = record.question
      · -- The answer has just been given.
        have hfirst : beforeFirst last earlier = earlier :=
          beforeFirst_of_not_mem (hlast ▸ hasked)
        obtain ⟨hsource, hlevel⟩ := Prod.mk.inj hlast
        rw [beforeFirst_concat_of_eq hasked hlast, hlast, List.lookup_cons_self, Option.getD_some,
          hstands.answer last, hfirst, hsource, hlevel]
      · -- There is no answer yet.
        have hfirst : record.question ∉ (earlier ++ [last]).map (·.question) := by
          simp [Ne.symm hlast, hasked]
        rw [beforeFirst_of_not_mem hfirst, List.lookup_cons,
          beq_eq_false_iff_ne.mpr (Ne.symm hlast)]
        exact admits_channelOf (show (journal.noted last).channels = _ from hstands.channels)
          (hstands.sources_noted last) record

/-- A record passes if it is let through, its level has a name, and it belongs to a part whose
handlers take it. -/
theorem passes_iff (record : Record) :
    Passes known level earlier record ↔
      (journal.answer record && Numeral.isWritable record.level) = true ∧
        Belongs journal.sources record.source ∧ level ≤ record.level := by
  rw [Bool.and_eq_true, hstands.answer, hstands.sources, Passes, decide_eq_true_iff, leastOf]
  constructor
  · rintro ⟨hpositive, hnamed, hthreshold, hnow, hfirst⟩
    refine ⟨⟨⟨hpositive, ?_⟩, (isWritable_iff_of_pos hpositive).mpr hnamed⟩, hnow,
      le_of_threshold_le hpositive hthreshold⟩
    split
    case isTrue => exact hthreshold
    case isFalse hnot => exact hfirst.resolve_left hnot
  · rintro ⟨⟨⟨hpositive, hleast⟩, hwritable⟩, hnow, hlevel⟩
    have hnamed := (isWritable_iff_of_pos hpositive).mp hwritable
    split at hleast
    case isTrue hfirst => exact ⟨hpositive, hnamed, hleast, hnow, .inl hfirst⟩
    case isFalse => exact ⟨hpositive, hnamed, threshold_le hlevel hleast, hnow, .inr hleast⟩

/-- One record is written to the console and to the file if it passes, and to neither if not. -/
theorem log_eq (sent : Sent) :
    journal.log sent.clock sent.record =
      { journal.noted sent.record with
        console := journal.console ++ (passing known level earlier sent).map Sent.line
        file := if toFile then
            journal.file.map (· ++ (passing known level earlier sent).map Sent.line)
          else journal.file } := by
  rw [passing]
  by_cases hpasses : Passes known level earlier sent.record
  · obtain ⟨hanswer, hwritten⟩ := (hstands.passes_iff _).mp hpasses
    rw [Journal.log, targets_channelOf hstands.channels, if_pos hanswer, if_pos hwritten,
      if_pos hpasses]
    cases toFile <;> rfl
  · have hunchanged : journal.log sent.clock sent.record = journal.noted sent.record := by
      rw [Journal.log, targets_channelOf hstands.channels]
      split
      case isTrue hanswer =>
        rw [if_neg fun hwritten => hpasses ((hstands.passes_iff _).mpr ⟨hanswer, hwritten⟩)]
        rfl
      case isFalse => rfl
    rw [hunchanged, if_neg hpasses]
    cases toFile <;> simp [Journal.noted]

theorem log (sent : Sent) :
    StandsAfter known level toFile (earlier ++ [sent.record])
      (journal.log sent.clock sent.record) := by
  rw [hstands.log_eq]
  have hnoted := hstands.noted sent.record
  exact ⟨hnoted.channels, hnoted.sources, hnoted.asked, hnoted.answer⟩

end StandsAfter

/-! ## A run -/

/-- After any number of records the console and the file have got the lines of those that pass. -/
theorem StandsAfter.logAll (hstands : StandsAfter known level toFile earlier journal)
    (sent : List Sent) :
    (journal.logAll sent).channels = channelsOf level toFile ∧
      (journal.logAll sent).console =
        journal.console ++ (delivered known level earlier sent).map Sent.line ∧
      (journal.logAll sent).file =
        if toFile then journal.file.map (· ++ (delivered known level earlier sent).map Sent.line)
        else journal.file := by
  induction sent generalizing earlier journal with
  | nil =>
      refine ⟨hstands.channels, (List.append_nil _).symm, ?_⟩
      cases toFile <;> simp [Journal.logAll, delivered]
  | cons first rest ih =>
      obtain ⟨hchannels, hconsole, hfile⟩ := ih (hstands.log first)
      refine ⟨hchannels, ?_, ?_⟩
      · rw [Journal.logAll, List.foldl_cons, ← Journal.logAll, hconsole, hstands.log_eq, delivered,
          List.map_append, List.append_assoc]
      · rw [Journal.logAll, List.foldl_cons, ← Journal.logAll, hfile, hstands.log_eq, delivered,
          List.map_append]
        cases toFile
        · rfl
        · cases journal.file <;> simp [List.append_assoc]

/-! ## Any history -/

/-- What is true of a journal after any calls: it has the channels of all parts, and no file if it
is to write to none. -/
structure IsInOrder (toFile : Bool) (journal : Journal) : Prop where
  parts : journal.channels.map (·.1) = Component.all
  file : toFile = false → journal.file = none

theorem isInOrder_initial : IsInOrder toFile .initial :=
  ⟨rfl, fun _ => rfl⟩

theorem IsInOrder.write (hjournal : IsInOrder toFile journal) (text : String) (target : Target) :
    IsInOrder toFile (journal.write text target) := by
  cases target with
  | console => exact ⟨hjournal.parts, hjournal.file⟩
  | file => exact ⟨hjournal.parts, fun hfile => by simp [Journal.write, hjournal.file hfile]⟩

theorem IsInOrder.foldl_write (hjournal : IsInOrder toFile journal) (text : String)
    (targets : List Target) :
    IsInOrder toFile
      (targets.foldl (fun journal target => journal.write text target) journal) := by
  induction targets generalizing journal with
  | nil => exact hjournal
  | cons target rest ih => exact ih (hjournal.write text target)

theorem IsInOrder.log (hjournal : IsInOrder toFile journal) (clock : String) (record : Record) :
    IsInOrder toFile (journal.log clock record) := by
  have hnoted : IsInOrder toFile (journal.noted record) := ⟨hjournal.parts, hjournal.file⟩
  rw [Journal.log]
  split
  case isTrue => exact hnoted.foldl_write _ _
  case isFalse => exact hnoted

theorem IsInOrder.opened (hjournal : IsInOrder toFile journal) (level : Int) :
    IsInOrder toFile (journal.opened level toFile) where
  parts := by
    rw [← hjournal.parts, Journal.opened, List.map_map]
    rfl
  file := by
    rintro rfl
    exact hjournal.file rfl

theorem IsInOrder.apply (hjournal : IsInOrder toFile journal) (call : Call) :
    IsInOrder toFile (call.apply toFile journal) := by
  cases call with
  | setUp clock level => exact (hjournal.opened level).log clock banner
  | log sent => exact hjournal.log sent.clock sent.record

theorem isInOrder_afterCalls (calls : List Call) : IsInOrder toFile (afterCalls toFile calls) := by
  induction calls using List.reverseRecOn with
  | nil => exact isInOrder_initial
  | append_singleton calls call ih =>
      rw [afterCalls, List.foldl_append]
      exact ih.apply call

/-- A set-up starts afresh: the new channels, no answers, and an empty file if there is one. -/
theorem IsInOrder.standsAfter_opened (hjournal : IsInOrder toFile journal) (level : Int) :
    StandsAfter journal.sources level toFile [] (journal.opened level toFile) := by
  have hchannels : (journal.opened level toFile).channels = channelsOf level toFile := by
    rw [channelsOf, ← hjournal.parts, List.map_map]
    rfl
  have hsources : (journal.opened level toFile).sources = metAfter journal.sources [] :=
    (List.append_nil _).symm
  exact ⟨hchannels, hsources, rfl, admits_channelOf hchannels hsources⟩

/-- After any history of set-ups and records, a set-up followed by records of any source leaves
each part with its level and its handlers, one for the console and one for the file if there is
one, and nothing that is handed on. The console gets the line of every record that passes, in
order and once, the message of the set-up before them, and the file holds these lines and no
other. Unless there are two points next to each other in the name of its source, a record passes if
its level is high enough and its source has the name of a part up to the first point. -/
theorem setUp_logAll_writes_once (toFile : Bool) (calls : List Call) (clock : String)
    (level : Int) (sent : List Sent) :
    (((afterCalls toFile calls).setUp clock level toFile).logAll sent).channels =
        Component.all.map (fun component => (component,
          ⟨level, ⟨level, .console⟩ :: (if toFile then [⟨level, .file⟩] else []), false⟩)) ∧
      (((afterCalls toFile calls).setUp clock level toFile).logAll sent).console =
        (afterCalls toFile calls).console ++
          (delivered (afterCalls toFile calls).sources level []
            (⟨clock, banner⟩ :: sent)).map Sent.line ∧
      ((((afterCalls toFile calls).setUp clock level toFile).logAll sent).file =
        if toFile then
          some ((delivered (afterCalls toFile calls).sources level []
            (⟨clock, banner⟩ :: sent)).map Sent.line)
        else none) ∧
      ∀ (known : List String) (earlier : List Record) (record : Record),
        ['.', '.'] <:+: record.source.toList ∨
          (Passes known level earlier record ↔
            0 < record.level ∧ record.level < tenPow Numeral.greatestDigits ∧
              threshold level ≤ record.level ∧
              (Component.named? (String.ofList (stem record.source.toList))).isSome) := by
  have hjournal : IsInOrder toFile (afterCalls toFile calls) := isInOrder_afterCalls calls
  obtain ⟨hchannels, hconsole, hfile⟩ :=
    (hjournal.standsAfter_opened level).logAll (⟨clock, banner⟩ :: sent)
  refine ⟨hchannels, hconsole, hfile.trans ?_, ?_⟩
  · cases toFile with
    | false => exact hjournal.file rfl
    | true => simp only [opened, if_true, Option.map_some, List.nil_append]
  · intro known earlier record
    by_cases hpoints : ['.', '.'] <:+: record.source.toList
    · exact .inl hpoints
    · exact .inr (passes_iff_named?_stem known level earlier hpoints)

/-- A source that is no part can be heard all the same: what `calculadora.x` reports goes through
the channel of `calculadora`. -/
theorem record_below_part_is_written :
    (∀ component : Component, component.name ≠ "calculadora.x") ∧
      ((Journal.initial.setUp "00:00:00" 10 false).logAll
        [⟨"00:00:00", 20, "calculadora.x", "hi"⟩]).console =
        ["00:00:00 - calculadora - INFO - Logging inicializado.\n",
          "00:00:00 - calculadora.x - INFO - hi\n"] := by
  constructor
  · intro component
    cases component <;> decide
  · decide +kernel

end SciCalc.Journal
