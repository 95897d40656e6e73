import Mathlib.Data.List.Sort
import WeakIntern.Log.EventLog
import WeakIntern.Proofs.Dumps
import WeakIntern.Proofs.JsonTexts
import WeakIntern.Text.JsonFields
/-!
# What a log has, and how it is read

A log is switched on and off, is cleared and is handed events. What it then has can be told from the
places of these steps and from its clock (`EventLog.Tells`): an event is kept if it is severe enough
and the last switch before it, if there was one, was to on. The records of a log are written one to
a line. Split at its line ends the text has one line for each record, and what JSON readers find in
a line is the record, with its level, its time, its tag, its numbers and its strings
(`EventLog.journal_read_back`).
-/

namespace WeakIntern

/-! ## Steps of a log -/

/-- What can be done to a log. -/
inductive LogStep where
  | log (e : Event)
  | enable
  | disable
  | clear

namespace LogStep

/-- The event that a step hands to a log. -/
def event? : LogStep → Option Event
  | .log e => some e
  | .enable | .disable | .clear => none

/-- To what a step switches the log. -/
def switch? : LogStep → Option Bool
  | .enable => some true
  | .disable => some false
  | .log _ | .clear => none

/-- Does a step forget the records? -/
def clears : LogStep → Bool
  | .clear => true
  | .log _ | .enable | .disable => false

end LogStep

namespace EventLog

def step (log : EventLog) : LogStep → EventLog
  | .log e => log.record e
  | .enable => log.enable
  | .disable => log.disable
  | .clear => log.clear

/-- The log after some steps. -/
def run (log : EventLog) (steps : List LogStep) : EventLog := steps.foldl step log

/-! ## What a history tells -/

/-- Is a new log on after some steps? The last switch counts. -/
def isOn (steps : List LogStep) : Bool := (steps.filterMap LogStep.switch?).getLast?.getD true

variable (options : EventLogOptions) (clock : Nat → String) (history : List LogStep)

/-- The event that passes at a place of a history. -/
def passing? (i : Nat) : Option Event :=
  (history[i]?.bind LogStep.event?).filter fun e =>
    isOn (history.take i) && e.level.rank ≤ options.threshold.rank

/-- How many events pass before a place. -/
def passedBefore (i : Nat) : Nat := ((List.range i).filterMap (passing? options history)).length

/-- The record that is kept at a place: the clock is looked at for each event that passes, and for
no other. -/
def kept? (i : Nat) : Option LogRecord :=
  (passing? options history i).map fun event =>
    { event, time := clock (passedBefore options history i) }

/-- All records that are kept in a history. -/
def kept : List LogRecord := (List.range history.length).filterMap (kept? options clock history)

/-- Those that are not forgotten: the log is cleared nowhere behind them. -/
def remembered : List LogRecord :=
  ((List.range history.length).filter fun i => !(history.drop i).any LogStep.clears).filterMap
    (kept? options clock history)

/-- What a log tells of its history. -/
structure Tells (log : EventLog) : Prop where
  unchanged : log.options = options
  sameClock : log.clock = clock
  switched : log.enabled = isOn history
  looks : log.looks = (kept options clock history).length
  /-- It has the records that were kept and not forgotten, in their order, -/
  records : log.records.toList = remembered options clock history
  /-- and it handed over all that were kept, in their order, unless it hands over none. -/
  echoed : log.echoed.toList =
    if options.echo then (kept options clock history).map (echoOf options) else []
  /-- The records that it has are the last of these. -/
  last : remembered options clock history <:+ kept options clock history

/-! ## One more step -/

variable {options : EventLogOptions} {clock : Nat → String} {history : List LogStep}

theorem isOn_concat (s : LogStep) : isOn (history ++ [s]) = s.switch?.getD (isOn history) := by
  rw [isOn, List.filterMap_append, List.getLast?_append, isOn]
  cases s <;> rfl

theorem passing?_append {i : Nat} (hi : i < history.length) (more : List LogStep) :
    passing? options (history ++ more) i = passing? options history i := by
  rw [passing?, passing?, List.getElem?_append_left hi, List.take_append_of_le_length hi.le]

theorem passedBefore_append {i : Nat} (hi : i ≤ history.length) (more : List LogStep) :
    passedBefore options (history ++ more) i = passedBefore options history i := by
  rw [passedBefore, passedBefore]
  exact congrArg List.length (List.filterMap_congr fun k hk =>
    passing?_append ((List.mem_range.1 hk).trans_le hi) more)

theorem kept?_append {i : Nat} (hi : i < history.length) (more : List LogStep) :
    kept? options clock (history ++ more) i = kept? options clock history i := by
  rw [kept?, kept?, passing?_append hi, passedBefore_append hi.le]

theorem length_kept (options : EventLogOptions) (clock : Nat → String) (history : List LogStep) :
    (kept options clock history).length = passedBefore options history history.length := by
  have hkept : kept? options clock history = fun i => (passing? options history i).map fun event =>
      { event, time := clock (passedBefore options history i) } := rfl
  simp only [kept, passedBefore, List.length_filterMap_eq_countP, hkept, Option.isSome_map]

theorem kept?_length (s : LogStep) :
    kept? options clock (history ++ [s]) history.length =
      (s.event?.filter fun e => isOn history && e.level.rank ≤ options.threshold.rank).map
        fun event => { event, time := clock (kept options clock history).length } := by
  rw [kept?, passing?, List.getElem?_concat_length, Option.bind_some, List.take_left,
    passedBefore_append le_rfl, length_kept]

theorem filterMap_kept?_append {places : List Nat} (hplaces : ∀ i ∈ places, i < history.length)
    (more : List LogStep) :
    places.filterMap (kept? options clock (history ++ more)) =
      places.filterMap (kept? options clock history) :=
  List.filterMap_congr fun i hi => kept?_append (hplaces i hi) more

theorem kept_concat (s : LogStep) :
    kept options clock (history ++ [s]) = kept options clock history ++
      (kept? options clock (history ++ [s]) history.length).toList := by
  rw [kept, List.length_append, List.length_singleton, List.range_succ, List.filterMap_append,
    filterMap_kept?_append (fun i hi => List.mem_range.1 hi), ← kept, List.filterMap_cons,
    List.filterMap_nil]
  cases kept? options clock (history ++ [s]) history.length <;> rfl

/-- If the log is not cleared, what is kept comes behind the rest. -/
theorem remembered_concat {s : LogStep} (hs : s.clears = false) :
    remembered options clock (history ++ [s]) = remembered options clock history ++
      (kept? options clock (history ++ [s]) history.length).toList := by
  have hsame :
      (List.range history.length).filter (fun i => !((history ++ [s]).drop i).any LogStep.clears) =
        (List.range history.length).filter (fun i => !(history.drop i).any LogStep.clears) := by
    refine List.filter_congr fun i hi => ?_
    rw [List.drop_append_of_le_length (List.mem_range.1 hi).le, List.any_append, List.any_cons, hs]
    simp
  have hlast : ([history.length].filter fun i => !((history ++ [s]).drop i).any LogStep.clears) =
      [history.length] := by
    rw [List.filter_cons_of_pos, List.filter_nil]
    rw [List.drop_left, List.any_cons, hs]
    rfl
  rw [remembered, List.length_append, List.length_singleton, List.range_succ, List.filter_append,
    hsame, hlast, List.filterMap_append, filterMap_kept?_append, ← remembered, List.filterMap_cons,
    List.filterMap_nil]
  · cases kept? options clock (history ++ [s]) history.length <;> rfl
  · exact fun i hi => List.mem_range.1 (List.mem_filter.1 hi).1

theorem kept_of_event?_eq_none {s : LogStep} (hs : s.event? = none) :
    kept options clock (history ++ [s]) = kept options clock history := by
  rw [kept_concat, kept?_length, hs, Option.filter_none, Option.map_none, Option.toList_none,
    List.append_nil]

theorem remembered_of_event?_eq_none {s : LogStep} (hs : s.event? = none)
    (hclears : s.clears = false) :
    remembered options clock (history ++ [s]) = remembered options clock history := by
  rw [remembered_concat hclears, kept?_length, hs, Option.filter_none, Option.map_none,
    Option.toList_none, List.append_nil]

/-- A log that is cleared forgets all. -/
theorem remembered_clear : remembered options clock (history ++ [.clear]) = [] := by
  rw [remembered, List.filter_eq_nil_iff.2, List.filterMap_nil]
  intro i hi
  rw [List.mem_range, List.length_append, List.length_singleton, Nat.lt_succ_iff] at hi
  rw [List.drop_append_of_le_length hi, List.any_append]
  simp [LogStep.clears]

/-- What a log holds after an event, kept or not. -/
structure Recorded (log : EventLog) (e : Event) (log' : EventLog) : Prop where
  options : log'.options = log.options
  clock : log'.clock = log.clock
  enabled : log'.enabled = log.enabled
  looks : log'.looks = log.looks + (if log.keeps e then [log.stamp e] else []).length
  echoed : log'.echoed.toList = log.echoed.toList ++ if log.options.echo then
    (if log.keeps e then [log.stamp e] else []).map (echoOf log.options) else []

theorem recorded_record (log : EventLog) (e : Event) : log.Recorded e (log.record e) := by
  rw [record]
  cases hkeeps : log.keeps e with
  | false => exact ⟨rfl, rfl, rfl, by simp [hkeeps], by simp [hkeeps]⟩
  | true =>
    refine ⟨rfl, rfl, rfl, by simp [hkeeps], ?_⟩
    cases log.options.echo <;> simp [hkeeps]

/-- **One more step** tells what it did. -/
theorem Tells.step {log : EventLog} (h : Tells options clock history log) (s : LogStep) :
    Tells options clock (history ++ [s]) (log.step s) := by
  have hon : isOn (history ++ [s]) = s.switch?.getD (isOn history) := isOn_concat s
  cases s with
  | log e =>
    have hrecorded := log.recorded_record e
    -- The log keeps the event just if it is kept at the last place of the history.
    have hnew : (kept? options clock (history ++ [.log e]) history.length).toList =
        if log.keeps e then [log.stamp e] else [] := by
      rw [kept?_length, keeps, stamp, h.switched, h.unchanged, h.sameClock, h.looks, Level.passes,
        LogStep.event?, Option.filter_some]
      split <;> rfl
    have hkept : kept options clock (history ++ [.log e]) =
        kept options clock history ++ if log.keeps e then [log.stamp e] else [] := by
      rw [kept_concat, hnew]
    have hremembered : remembered options clock (history ++ [.log e]) =
        remembered options clock history ++ if log.keeps e then [log.stamp e] else [] := by
      rw [remembered_concat rfl, hnew]
    obtain ⟨before, hlast⟩ := h.last
    exact
      { unchanged := hrecorded.options.trans h.unchanged
        sameClock := hrecorded.clock.trans h.sameClock
        switched := (hrecorded.enabled.trans h.switched).trans hon.symm
        looks := by rw [EventLog.step, hrecorded.looks, h.looks, hkept, List.length_append]
        records := by rw [EventLog.step, records_record, h.records, hremembered]
        echoed := by
          rw [EventLog.step, hrecorded.echoed, h.echoed, hkept, h.unchanged]
          cases options.echo
          · rfl
          · exact List.map_append.symm
        last := ⟨before, by rw [hremembered, hkept, ← List.append_assoc, hlast]⟩ }
  | enable | disable =>
    exact
      { unchanged := h.unchanged
        sameClock := h.sameClock
        switched := hon.symm
        looks := by
          rw [kept_of_event?_eq_none rfl]
          exact h.looks
        records := h.records.trans (remembered_of_event?_eq_none rfl rfl).symm
        echoed := by
          rw [kept_of_event?_eq_none rfl]
          exact h.echoed
        last := by
          rw [kept_of_event?_eq_none rfl, remembered_of_event?_eq_none rfl rfl]
          exact h.last }
  | clear =>
    exact
      { unchanged := h.unchanged
        sameClock := h.sameClock
        switched := h.switched.trans hon.symm
        looks := by
          rw [kept_of_event?_eq_none rfl]
          exact h.looks
        records := remembered_clear.symm
        echoed := by
          rw [kept_of_event?_eq_none rfl]
          exact h.echoed
        last := by
          rw [remembered_clear]
          exact List.nil_suffix }

/-- **A log tells** what its history is, whatever was done to it. -/
theorem tells_run (options : EventLogOptions) (clock : Nat → String) (history : List LogStep) :
    Tells options clock history (run { options, clock } history) := by
  induction history using List.reverseRecOn with
  | nil =>
    exact
      { unchanged := rfl
        sameClock := rfl
        switched := rfl
        looks := rfl
        records := rfl
        echoed := by cases options.echo <;> rfl
        last := List.suffix_rfl }
  | append_singleton history s ih =>
    rw [run, List.foldl_append]
    exact ih.step s

end EventLog

/-! ## Records in lines -/

namespace Event

/-- The whole numbers that an event holds, -/
def counts : Event → List (String × Nat)
  | .workTriggered _ _ numDead => [("num_dead", numDead)]
  | .grown oldSize newSize moved reclaimed _ =>
    [("old_size", oldSize), ("new_size", newSize), ("moved", moved), ("reclaimed", reclaimed)]
  | .cleaned examined reclaimed _ => [("examined", examined), ("reclaimed", reclaimed)]
  | .rehashRequested size => [("size", size)]
  | .rehashed size seed _ => [("size", size), ("seed", seed.toNat)]
  | .overlayDrained entries => [("entries", entries)]
  | .taskSkipped .. | .rehashDeferredToGrow .. | .rehashRepeated | .rehashFailed
  | .verificationFailure .. => []

/-- its texts, -/
def texts : Event → List (String × String)
  | .taskSkipped task reason => [("task", task), ("reason", reason)]
  | .verificationFailure kind detail => [("kind", kind), ("detail", detail)]
  | .workTriggered .. | .grown .. | .cleaned .. | .rehashRequested .. | .rehashDeferredToGrow
    .. | .rehashRepeated
  | .rehashed .. | .rehashFailed | .overlayDrained .. => []

/-- and its doubles. -/
def measures : Event → List (String × Float)
  | .workTriggered loadFactor deadFactor _ =>
    [("load_factor", loadFactor), ("dead_factor", deadFactor)]
  | .grown _ _ _ _ ms | .cleaned _ _ ms | .rehashed _ _ ms => [("duration_ms", ms)]
  | .rehashDeferredToGrow loadFactor => [("load_factor", loadFactor)]
  | .taskSkipped .. | .rehashRequested .. | .rehashRepeated | .rehashFailed | .overlayDrained ..
  | .verificationFailure .. => []

/-- All that an event holds, with its tag. -/
def fields (e : Event) : List (String × Json) :=
  ("event", .string e.tag) ::
    (e.counts.map (Prod.map id Json.count) ++ e.texts.map (Prod.map id .string) ++
    e.measures.map (Prod.map id .float))

/-- The record of an event has these fields, in the order of their names. -/
theorem toJson_eq (e : Event) :
    e.toJson = .record (e.fields.insertionSort fun (name, _) (name', _) => name ≤ name') := by
  cases e <;> simp [toJson, fields, counts, texts, measures, List.insertionSort, List.orderedInsert]

/-- No two fields have one name. -/
theorem nodup_fields (e : Event) : (e.fields.map Prod.fst).Nodup := by
  cases e <;> simp [fields, counts, texts, measures]

/-- Do the whole numbers of an event fit sixty-four bits? In an event that was recorded they do. -/
def Sized (e : Event) : Prop := ∀ field ∈ e.counts, field.2 ≤ maxCount

/-- What is found in a record that holds an event. -/
structure FoundIn (e : Event) (j : Json) : Prop where
  tag : j.field? "event" = some (.string e.tag)
  counts : ∀ name n, (name, n) ∈ e.counts → j.field? name = some (.int n)
  texts : ∀ name s, (name, s) ∈ e.texts → j.field? name = some (.string s)
  /-- A double is found as a double, or as `null`. -/
  measures : ∀ name x, (name, x) ∈ e.measures → j.field? name = some .null ∨ ∃ y,
    j.field? name = some (.float y)
  /-- There is nothing else. -/
  names : (j.fields.map Prod.fst).Perm (e.fields.map Prod.fst)

end Event

namespace Json

/-- Where no two fields have one name, each is found. -/
theorem field?_eq_of_mem {fields : List (String × Json)} (hnodup : (fields.map Prod.fst).Nodup)
    {name : String} {j : Json} (hmem : (name, j) ∈ fields) :
    (Json.record fields).field? name = some j := by
  obtain ⟨found, hfound⟩ : ∃ found, fields.reverse.find? (fun (key, _) => key == name) =
      some found :=
    Option.isSome_iff_exists.1
      (List.find?_isSome.2 ⟨(name, j), List.mem_reverse.2 hmem, beq_self_eq_true name⟩)
  have hname : (found.1 == name) = true :=
    List.find?_some (p := fun (field : String × Json) => field.1 == name) hfound
  have hsame : found = (name, j) :=
    List.inj_on_of_nodup_map hnodup (List.mem_reverse.1 (List.mem_of_find?_eq_some hfound)) hmem
      (eq_of_beq hname)
  rw [field?, hfound, hsame]
  rfl

theorem asRead_float (x : Float) : (Json.float x).asRead = .null ∨ ∃ y,
    (Json.float x).asRead = .float y := by
  rw [asRead]
  rcases floatChars_eq x with h | ⟨-, y, hy⟩
  · rw [h]
    exact .inl rfl
  · rw [hy]
    exact .inr ⟨y, rfl⟩

end Json

namespace Event

variable {e : Event}

theorem mem_fields {name : String} {j : Json} :
    (name, j) ∈ e.fields ↔ (name = "event" ∧ j = .string e.tag) ∨
      (∃ n, (name, n) ∈ e.counts ∧ j = .count n) ∨
      (∃ s, (name, s) ∈ e.texts ∧ j = .string s) ∨ ∃ x, (name, x) ∈ e.measures ∧ j = .float x := by
  rw [fields, List.mem_cons, List.mem_append, List.mem_append, List.mem_map, List.mem_map,
    List.mem_map, Prod.mk.injEq, or_assoc]
  simp only [Prod.exists, Prod.map_apply, id_eq, Prod.mk.injEq]
  constructor
  · rintro (h | ⟨_, n, hmem, rfl, rfl⟩ | ⟨_, s, hmem, rfl, rfl⟩ | ⟨_, x, hmem, rfl, rfl⟩)
    · exact .inl h
    · exact .inr (.inl ⟨n, hmem, rfl⟩)
    · exact .inr (.inr (.inl ⟨s, hmem, rfl⟩))
    · exact .inr (.inr (.inr ⟨x, hmem, rfl⟩))
  · rintro (h | ⟨n, hmem, rfl⟩ | ⟨s, hmem, rfl⟩ | ⟨x, hmem, rfl⟩)
    · exact .inl h
    · exact .inr (.inl ⟨name, n, hmem, rfl, rfl⟩)
    · exact .inr (.inr (.inl ⟨name, s, hmem, rfl, rfl⟩))
    · exact .inr (.inr (.inr ⟨name, x, hmem, rfl, rfl⟩))

theorem fits_toJson (h : e.Sized) : e.toJson.Fits := by
  rw [toJson_eq, Json.Fits, Json.fieldsFit_iff]
  rintro ⟨name, j⟩ hmem
  rw [List.mem_insertionSort, mem_fields] at hmem
  rcases hmem with ⟨-, rfl⟩ | ⟨n, hn, rfl⟩ | ⟨s, -, rfl⟩ | ⟨x, -, rfl⟩
  · trivial
  · have hle : n ≤ maxCount := h (name, n) hn
    rw [Json.count, Json.Fits]
    omega
  · trivial
  · trivial

/-- The fields of an event, as they are read. -/
theorem field?_asRead {name : String} {j : Json} (h : (name, j) ∈ e.fields) :
    e.toJson.asRead.field? name = some j.asRead := by
  rw [toJson_eq, Json.asRead, Json.fieldsAsRead_eq]
  refine Json.field?_eq_of_mem ?_ (List.mem_map.2 ⟨(name, j), (List.mem_insertionSort _).2 h, rfl⟩)
  rw [List.map_map]
  exact ((List.perm_insertionSort _ e.fields).map Prod.fst).nodup_iff.2 e.nodup_fields

/-- **An event is found** in what is read of its record. -/
theorem foundIn_asRead (e : Event) : e.FoundIn e.toJson.asRead where
  tag := by
    rw [field?_asRead (mem_fields.2 (.inl ⟨rfl, rfl⟩)), Json.asRead]
  counts name n h := by
    rw [field?_asRead (mem_fields.2 (.inr (.inl ⟨n, h, rfl⟩))), Json.count, Json.asRead]
  texts name s h := by
    rw [field?_asRead (mem_fields.2 (.inr (.inr (.inl ⟨s, h, rfl⟩)))), Json.asRead]
  measures name x h := by
    rw [field?_asRead (mem_fields.2 (.inr (.inr (.inr ⟨x, h, rfl⟩))))]
    rcases Json.asRead_float x with h | ⟨y, h⟩
    · exact .inl (congrArg some h)
    · exact .inr ⟨y, congrArg some h⟩
  names := by
    rw [toJson_eq, Json.asRead, Json.fieldsAsRead_eq, Json.fields, List.map_map]
    exact (List.perm_insertionSort _ e.fields).map Prod.fst

end Event

namespace LogRecord

/-- What is found in a value that holds a record. -/
structure FoundIn (r : LogRecord) (j : Json) : Prop where
  level : j.field? "level" = some (.string r.event.level.name)
  time : j.field? "timestamp" = some (.string r.time)
  event : ∃ found, j.field? "event" = some found ∧ r.event.FoundIn found

/-- The line of a record is a JSON object in which the record is found. -/
structure IsRead (r : LogRecord) (line : String) : Prop where
  object : Json.IsObject line.toList
  found : ∃ j, Json.read? line = some j ∧ r.FoundIn j

variable {r : LogRecord}

theorem isObject_line (r : LogRecord) : Json.IsObject r.line.toList := by
  refine ⟨Json.fieldChars r.fields, Json.wellFormed_fieldChars _ (List.cons_ne_nil _ _), ?_⟩
  rw [line, Json.compact, String.toList_ofList, Json.chars]

theorem lineEnd_notMem_line (r : LogRecord) : '\n' ∉ r.line.toList := by
  obtain ⟨fields, hfields, hline⟩ := r.isObject_line
  intro hmem
  rw [hline] at hmem
  exact absurd ((Json.WellFormed.record hfields).blank_le _ hmem) (by decide)

/-- **A record is found** in what is read of its line. -/
theorem foundIn_asRead (r : LogRecord) : r.FoundIn (Json.record r.fields).asRead :=
  ⟨rfl, rfl, r.event.toJson.asRead, rfl, r.event.foundIn_asRead⟩

theorem isRead_line (h : r.event.Sized) : r.IsRead r.line where
  object := r.isObject_line
  found :=
    ⟨_, Json.read?_compact (j := .record r.fields) ⟨Event.fits_toJson h, trivial, trivial, trivial⟩,
      r.foundIn_asRead⟩

/-- **The text of records** has one line for each. -/
theorem textLines_lines {records : List LogRecord} (hne : records ≠ []) :
    textLines (lines records) = records.map line := by
  have hlines : ∀ chars ∈ (records.map line).map String.toList, '\n' ∉ chars := by
    intro chars hchars
    obtain ⟨text, htext, rfl⟩ := List.mem_map.1 hchars
    obtain ⟨r, -, rfl⟩ := List.mem_map.1 htext
    exact r.lineEnd_notMem_line
  have hne' : (records.map line).map String.toList ≠ [] := by simpa using hne
  have hsplit := List.splitOn_intercalate '\n' hlines hne'
  rw [textLines, lines, String.toList_intercalate]
  show (([('\n' : Char)].intercalate _).splitOn '\n').map String.ofList = _
  rw [hsplit, List.map_map, List.map_map]
  exact List.map_congr_left fun r _ => String.ofList_toList

end LogRecord

namespace EventLog

/-- **A log keeps what passes, and its text can be read.** Whatever is done to a log, however it
records and whatever its clock says, it has the events that were kept and not forgotten, each with
its time, and has handed over all that were kept. Whatever texts there are in some records, they are
written one to a line, and what is found in a line is the record: its level, its time, and its event
with the tag, the whole numbers and the strings. -/
theorem journal_read_back (options : EventLogOptions) (clock : Nat → String)
    (history : List LogStep) :
    Tells options clock history (run { options, clock } history) ∧
      (run { options, clock } history).jsonLines =
        LogRecord.lines (remembered options clock history) ∧
      ∀ records : List LogRecord, records ≠ [] → (∀ r ∈ records, r.event.Sized) →
        textLines (LogRecord.lines records) = records.map LogRecord.line ∧
          ∀ r ∈ records, r.IsRead r.line := by
  have htells := tells_run options clock history
  refine ⟨htells, ?_, fun records hne hsized =>
    ⟨LogRecord.textLines_lines hne, fun r hr => LogRecord.isRead_line (hsized r hr)⟩⟩
  rw [jsonLines, htells.records]

/-- A history in which one event is not severe enough, one finds the log off and one is
forgotten. -/
def stormyHistory : List LogStep :=
  [.log (.rehashRequested 8), .log .rehashRepeated, .clear,
    .log (.verificationFailure "\"a\"\n" "\\\x01é"), .disable, .log .rehashFailed, .enable,
    .log (.overlayDrained 3)]

/-- A clock, one second after another. -/
def stormyClock : Nat → String
  | 0 => "2024-05-01T10:00:00+02:00"
  | 1 => "2024-05-01T10:00:01+02:00"
  | _ => "2024-05-01T10:00:02+02:00"

/-- What is left of it, with the times of the records. -/
def stormyRecords : List LogRecord :=
  [⟨.verificationFailure "\"a\"\n" "\\\x01é", "2024-05-01T10:00:01+02:00"⟩,
    ⟨.overlayDrained 3, "2024-05-01T10:00:02+02:00"⟩]

theorem journal_read_back_of_stormyHistory :
    remembered { threshold := .info } stormyClock stormyHistory = stormyRecords ∧
      (run { options := { threshold := .info }, clock := stormyClock }
        stormyHistory).records.toList = stormyRecords ∧
      textLines (LogRecord.lines stormyRecords) = stormyRecords.map LogRecord.line ∧
      ∀ r ∈ stormyRecords, r.IsRead r.line := by
  obtain ⟨htells, -, hread⟩ := journal_read_back { threshold := .info } stormyClock stormyHistory
  have hremembered :
      remembered { threshold := .info } stormyClock stormyHistory = stormyRecords := rfl
  have hsized : ∀ r ∈ stormyRecords, ∀ field ∈ r.event.counts, field.2 ≤ maxCount := by decide
  exact ⟨hremembered, htells.records.trans hremembered,
    hread stormyRecords (List.cons_ne_nil _ _) hsized⟩

end EventLog

end WeakIntern
