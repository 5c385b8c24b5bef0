import MiniContainer.ForStd.JsonText
import MiniContainer.Native.Print
import MiniContainer.Spec.Leases

/-!
# Printed documents in JSON mode

Which of the documents that are printed with `printf` are JSON texts.

* an error reads back exactly when its texts need no escape (`errorPrint_iff`)
* the list of containers is always a JSON text: IDs, names and statuses need no escape
  (`printList_wellFormed`)
* the statistics are a JSON text exactly when no limit is `max` (`printStats_wellFormed_iff`)
-/

namespace MiniContainer

open CString (Text decimal)
open JsonC (Value)
open JsonText

/-! ## Errors -/

/-- The object has exactly one member of this name, with this value. -/
def HasOnly (members : List (Text × Json)) (name : String) (value : Json) : Prop :=
  members.filter (·.1 = name.toList) = [(name.toList, value)]

/-- A document that gives the record back. -/
def Describes (document : Json) (e : McError) : Prop :=
  ∃ outer members, document = .obj outer ∧ HasOnly outer "error" (.obj members) ∧
    HasOnly members "code" (.num e.code.toNat 0) ∧
    HasOnly members "operation" (.str e.operation) ∧
    HasOnly members "resource" (.str e.resource) ∧ HasOnly members "message" (.str e.message)

theorem HasOnly.eq_of_cons {members : List (Text × Json)} {name : String} {v value : Json}
    (h : HasOnly ((name.toList, v) :: members) name value) : v = value := by
  rw [HasOnly, List.filter_cons_of_pos (by simp)] at h
  exact (Prod.mk.inj (List.cons.inj h).1).2

theorem HasOnly.of_cons {members : List (Text × Json)} {key : Text} {name : String}
    {v value : Json} (h : HasOnly ((key, v) :: members) name value) (hne : key ≠ name.toList) :
    HasOnly members name value := by
  rwa [HasOnly, List.filter_cons_of_neg (by simpa using hne)] at h

/-- The system's part of an error. -/
def systemText (strerror : Errno → Text) (e : McError) : Text :=
  if e.errno = .zero then [] else strerror e.errno

/-- The members of the object `error`. -/
def errorMembers (strerror : Errno → Text) (e : McError) : List (Text × Text) :=
  [("code".toList, decimal e.code.toNat), ("operation".toList, quoted e.operation),
    ("resource".toList, quoted e.resource), ("message".toList, quoted e.message),
    ("system".toList, quoted (systemText strerror e))]

/-- The error is printed as an object in an object. -/
theorem errorPrint_eq (strerror : Errno → Text) (e : McError) :
    errorPrint strerror e true =
      objectText [("error".toList, objectText (errorMembers strerror e))] ++ ['\n'] := by
  simp [errorPrint, objectText, membersText, commaSeparated, memberText, quoted, errorMembers,
    systemText]

/-- An error whose texts are plain reads back. -/
theorem parse_errorPrint {strerror : Errno → Text} {e : McError} (hoperation : Plain e.operation)
    (hresource : Plain e.resource) (hmessage : Plain e.message)
    (hsystem : Plain (systemText strerror e)) :
    ∃ document, parse (errorPrint strerror e true) = some document ∧ Describes document e := by
  have hmembers : MembersRead (errorMembers strerror e)
      [("code".toList, .num e.code.toNat 0), ("operation".toList, .str e.operation),
        ("resource".toList, .str e.resource), ("message".toList, .str e.message),
        ("system".toList, .str (systemText strerror e))] :=
    .cons (by decide) (reads_decimal _) <| .cons (by decide) (reads_quoted hoperation) <|
      .cons (by decide) (reads_quoted hresource) <| .cons (by decide) (reads_quoted hmessage) <|
      .single (by decide) (reads_quoted hsystem)
  have houter : MembersRead [("error".toList, objectText (errorMembers strerror e))]
      [("error".toList, .obj _)] := .single (by decide) (reads_object hmembers)
  have hparse := parse_of_reads (reads_object houter)
  rw [← errorPrint_eq] at hparse
  exact ⟨_, hparse, _, _, rfl, rfl, rfl, rfl, rfl, rfl⟩

/-- The members of the object `error`, as the reader comes to them. -/
theorem readMembers_of_describes {strerror : Errno → Text} {e : McError} {document : Json}
    (hparse : parse (errorPrint strerror e true) = some document) (hd : Describes document e) :
    ∃ n members u, readMembers n (membersText (errorMembers strerror e) ++ ['\x7d', '\x7d', '\n']) =
        some (members, u) ∧ (decimal e.code.toNat).length + 1 < n ∧
      HasOnly members "code" (.num e.code.toNat 0) ∧
      HasOnly members "operation" (.str e.operation) ∧
      HasOnly members "resource" (.str e.resource) ∧
      HasOnly members "message" (.str e.message) := by
  obtain ⟨outer, members, rfl, hone, hmembers⟩ := hd
  rw [errorPrint_eq, parse] at hparse
  obtain ⟨⟨v, t⟩, hread, hv⟩ := Option.bind_eq_some_iff.mp hparse
  obtain rfl : v = .obj outer := by
    dsimp only at hv
    split at hv
    · exact Option.some.inj hv
    · cases hv
  -- there is fuel for the objects and their members
  obtain ⟨n, hn, hcode⟩ : ∃ n, (objectText [("error".toList,
      objectText (errorMembers strerror e))] ++ ['\n']).length = n + 2 ∧
      (decimal e.code.toNat).length + 1 < n := by
    refine ⟨(objectText (errorMembers strerror e)).length + 9, ?_, ?_⟩
    · simp [length_objectText, membersText_single, length_memberText]
      omega
    · simp [length_objectText, errorMembers, membersText, commaSeparated, length_memberText]
      omega
  rw [hn, readValue_objectText (by simp)] at hread
  obtain ⟨⟨outer', t'⟩, houter, heq⟩ := Option.map_eq_some_iff.mp hread
  obtain rfl : outer' = outer := Json.obj.inj (Prod.mk.inj heq).1
  rw [membersText_single] at houter
  obtain ⟨value, more, r, rfl, hvalue⟩ := readMembers_first (by decide) houter
  obtain rfl := hone.eq_of_cons
  rw [readValue_objectText (by simp [errorMembers])] at hvalue
  obtain ⟨⟨members', u⟩, hinner, heq⟩ := Option.map_eq_some_iff.mp hvalue
  obtain rfl : members' = members := Json.obj.inj (Prod.mk.inj heq).1
  exact ⟨n, members', u, hinner, hcode, hmembers⟩

/-- Only an error whose texts are plain reads back. -/
theorem plain_of_describes {strerror : Errno → Text} {e : McError} {document : Json}
    (hparse : parse (errorPrint strerror e true) = some document) (hd : Describes document e) :
    Plain e.operation ∧ Plain e.resource ∧ Plain e.message := by
  obtain ⟨n, members, u, hread, hn, hcode, hoperation, hresource, hmessage⟩ :=
    readMembers_of_describes hparse hd
  obtain ⟨members, n₁, rfl, hread₁⟩ := readMembers_reads (by decide) (reads_decimal _) hn hread
  replace hoperation := hoperation.of_cons (by decide)
  replace hresource := hresource.of_cons (by decide)
  replace hmessage := hmessage.of_cons (by decide)
  -- each of the three texts, from the first on
  obtain ⟨s₁, members, rfl, hnext₁⟩ := readMembers_quoted (by decide) hread₁
  obtain ⟨hplain₁, n₂, hread₂⟩ := hnext₁ (Json.str.inj hoperation.eq_of_cons)
  replace hresource := hresource.of_cons (by decide)
  replace hmessage := hmessage.of_cons (by decide)
  obtain ⟨s₂, members, rfl, hnext₂⟩ := readMembers_quoted (by decide) hread₂
  obtain ⟨hplain₂, n₃, hread₃⟩ := hnext₂ (Json.str.inj hresource.eq_of_cons)
  replace hmessage := hmessage.of_cons (by decide)
  obtain ⟨s₃, members, rfl, hnext₃⟩ := readMembers_quoted (by decide) hread₃
  exact ⟨hplain₁, hplain₂, (hnext₃ (Json.str.inj hmessage.eq_of_cons)).1⟩

/-! ## The list of containers -/

/-- An entry of the registry, with what is read of its files. -/
structure ListEntry where
  name : Name
  state : Option StateDoc
  config : Option Value

/-- An entry that the program has written: the directory is named by an ID, and a stored
    configuration is the document of an accepted one. -/
structure ListEntry.Written (host : Host) (entry : ListEntry) : Prop where
  id : ∃ id : ContainerId, id.text = entry.name
  config : ∀ x, entry.config = some x → ∃ config, StoredAs host entry.name x config

/-- The row that `listRow` returns for what it reads. -/
def ListEntry.row (includeStopped : Bool) (entry : ListEntry) : Option (Name × Text × Status) :=
  match entry.state with
  | none => none
  | some document =>
    if !includeStopped && document.status != .running then none
    else
      let name := (entry.config.bind (·.getEx "name")).bind Value.getString
      some (entry.name, name.getD [], document.status)

/-- The files of the entries that are read. -/
def readEntries : List Name → Action (List ListEntry)
  | [] => return []
  | d :: ds =>
    if !containerEntry d then readEntries ds
    else do
      let state ← perform (.readState d)
      let config ← perform (.readConfig d)
      let entries ← readEntries ds
      return ⟨d, state, config⟩ :: entries

/-- A row depends on the two files of its container. -/
theorem listRow_eq (includeStopped : Bool) (d : Name) : listRow includeStopped d = do
    let state ← perform (.readState d)
    let config ← perform (.readConfig d)
    return ListEntry.row includeStopped ⟨d, state, config⟩ := by
  unfold listRow
  refine bind_congr fun state => bind_congr fun config => ?_
  cases state with
  | none => rfl
  | some document =>
    simp only [ListEntry.row]
    split <;> rfl

/-- The rows are those of the entries that are read. -/
theorem listRows_eq (includeStopped : Bool) (names : List Name) :
    listRows includeStopped names = do
      let entries ← readEntries names
      return entries.filterMap (·.row includeStopped) := by
  induction names with
  | nil => rfl
  | cons d ds ih =>
    rw [listRows, readEntries]
    split
    · exact ih
    · rw [listRow_eq, ih]
      simp only [Prog.bind_eq, perform, Prog.perform_bind, Prog.act_bind, Prog.bind_assoc]
      congr 1
      funext state
      congr 1
      funext config
      simp only [pure, Prog.ret_bind]
      congr 1
      funext entries
      cases hrow : ListEntry.row includeStopped ⟨d, state, config⟩ <;> simp [hrow]

theorem plain_char {c : Char} (h : 45 ≤ c.toNat) (hne : c ≠ '\\') :
    c ≠ '"' ∧ c ≠ '\\' ∧ 0x20 ≤ c.toNat := by
  refine ⟨?_, hne, by omega⟩
  rintro rfl
  exact absurd h (by decide)

theorem plain_digit {c : Char} (h : c.isDigit = true) :
    c ≠ '"' ∧ c ≠ '\\' ∧ 0x20 ≤ c.toNat := by
  have hle : 48 ≤ c.toNat := by
    simp only [Char.isDigit, Bool.and_eq_true, decide_eq_true_eq] at h
    exact h.1
  exact plain_char (by omega) (by rintro rfl; exact absurd h (by decide))

/-- Nothing in an ID has to be escaped, -/
theorem plain_id (id : ContainerId) : Plain id.text := by
  intro c hc
  have hhex := id.hex c hc
  simp only [isHexDigit, Bool.or_eq_true, Bool.and_eq_true, decide_eq_true_eq] at hhex
  rcases hhex with hdigit | ⟨hle, -⟩
  · exact plain_digit hdigit
  · exact plain_char (by omega) (by rintro rfl; exact absurd hle (by decide))

/-- in a valid name, -/
theorem plain_of_validName {name : Text} (h : validName name = true) : Plain name := by
  simp only [validName, Bool.and_eq_true, List.all_eq_true] at h
  intro c hc
  have hchar := h.1.2 c hc
  simp only [Bool.or_eq_true, beq_iff_eq] at hchar
  rcases hchar with (((hlower | hdigit) | rfl) | rfl) | rfl
  · have hle : 97 ≤ c.toNat := by
      change (decide (c.val ≥ 'a'.val) && decide (c.val ≤ 'z'.val)) = true at hlower
      exact of_decide_eq_true (Bool.and_eq_true_iff.mp hlower).1
    exact plain_char (by omega) (by rintro rfl; exact absurd hle (by decide))
  · exact plain_digit hdigit
  · decide
  · decide
  · decide

/-- or in a status. -/
theorem plain_status (status : Status) : Plain status.text := by
  cases status <;> decide

theorem ListEntry.Written.plain_row {host : Host} {entry : ListEntry} (h : entry.Written host)
    {includeStopped : Bool} {row : Name × Text × Status}
    (hrow : entry.row includeStopped = some row) : Plain row.1 ∧ Plain row.2.1 := by
  obtain ⟨id, hid⟩ := h.id
  have hname : Plain (((entry.config.bind (·.getEx "name")).bind Value.getString).getD []) := by
    cases hconfig : entry.config with
    | none => exact plain_nil
    | some x =>
      obtain ⟨config, hstored⟩ := h.config x hconfig
      obtain ⟨stamp, image, rfl⟩ := hstored.document
      rw [Option.bind_some, getEx_name_configJson]
      cases hname : config.name with
      | none => exact plain_nil
      | some name => exact plain_of_validName (hstored.accepted.name name hname)
  unfold ListEntry.row at hrow
  split at hrow
  · exact nomatch hrow
  · split at hrow
    · exact nomatch hrow
    · cases hrow
      exact ⟨hid ▸ plain_id id, hname⟩

/-- The JSON text of a row. -/
def rowText (row : Name × Text × Status) : Text :=
  objectText [("id".toList, quoted row.1), ("name".toList, quoted row.2.1),
    ("status".toList, quoted row.2.2.text)]

theorem printRow_eq (first : Bool) (row : Name × Text × Status) :
    printRow true first row = (if first then [] else [',']) ++ rowText row := by
  cases first <;>
    simp [printRow, rowText, objectText, membersText, commaSeparated, memberText, quoted]

/-- The commas stand between the rows. -/
theorem printRows_eq (rows : List (Name × Text × Status)) :
    printRows true true rows = commaSeparated (rows.map rowText) := by
  have hbehind (row : Name × Text × Status) (rows : List (Name × Text × Status)) :
      rowText row ++ printRows true false rows = commaSeparated ((row :: rows).map rowText) := by
    induction rows generalizing row with
    | nil => simp [printRows, commaSeparated]
    | cons row' rows ih =>
      rw [printRows, printRow_eq, List.append_assoc, ih]
      rfl
  cases rows with
  | nil => rfl
  | cons row rows =>
    rw [printRows, printRow_eq]
    exact hbehind row rows

theorem listText_eq (rows : List (Name × Text × Status)) :
    listText true rows = arrayText (rows.map rowText) ++ ['\n'] := by
  simp [listText, printRows_eq, arrayText]

/-- The list is a JSON text for all that the program has written. -/
theorem listText_wellFormed {host : Host} {entries : List ListEntry}
    (h : ∀ entry ∈ entries, entry.Written host) (includeStopped : Bool) :
    WellFormed (listText true (entries.filterMap (·.row includeStopped))) := by
  have hreads : ∀ rows : List (Name × Text × Status), (∀ row ∈ rows, Plain row.1 ∧ Plain row.2.1) →
      ∃ vs, List.Forall₂ JsonText.Reads (rows.map rowText) vs := by
    intro rows hrows
    induction rows with
    | nil => exact ⟨[], .nil⟩
    | cons row rows ih =>
      obtain ⟨vs, hvs⟩ := ih fun row hrow => hrows row (List.mem_cons_of_mem _ hrow)
      obtain ⟨hid, hname⟩ := hrows row List.mem_cons_self
      exact ⟨_ :: vs, .cons (reads_object (.cons (by decide) (reads_quoted hid) <|
        .cons (by decide) (reads_quoted hname) <|
        .single (by decide) (reads_quoted (plain_status _)))) hvs⟩
  obtain ⟨vs, hvs⟩ := hreads (entries.filterMap (·.row includeStopped)) fun row hrow => by
    obtain ⟨entry, hentry, hrow⟩ := List.mem_filterMap.mp hrow
    exact (h entry hentry).plain_row hrow
  have hparse := parse_of_reads (reads_array hvs fun text htext => by
    obtain ⟨row, -, rfl⟩ := List.mem_map.mp htext
    rfl)
  rw [WellFormed, listText_eq, hparse]
  rfl

/-! ## Statistics -/

def memoryMembers (s : Stats) : List (Text × Text) :=
  [("current".toList, printU64 s.memoryCurrent), ("max".toList, printLimit s.memoryMax),
    ("swap_current".toList, printU64 s.swapCurrent), ("swap_max".toList, printLimit s.swapMax),
    ("oom".toList, printU64 s.memoryOom), ("oom_kill".toList, printU64 s.memoryOomKill)]

def cpuMembers (s : Stats) : List (Text × Text) :=
  [("usage_usec".toList, printU64 s.cpuUsage), ("nr_throttled".toList, printU64 s.cpuThrottled),
    ("throttled_usec".toList, printU64 s.cpuThrottledUsec)]

def pidsMembers (s : Stats) : List (Text × Text) :=
  [("current".toList, printU64 s.pidsCurrent), ("max".toList, printLimit s.pidsMax)]

def ioMembers (s : Stats) : List (Text × Text) :=
  [("read_bytes".toList, printU64 s.ioRead), ("write_bytes".toList, printU64 s.ioWrite)]

def statsMembers (id : Text) (s : Stats) : List (Text × Text) :=
  [("schema_version".toList, decimal 1), ("id".toList, quoted id),
    ("memory".toList, objectText (memoryMembers s)), ("cpu".toList, objectText (cpuMembers s)),
    ("pids".toList, objectText (pidsMembers s)), ("io".toList, objectText (ioMembers s))]

set_option maxRecDepth 2000 in
/-- The statistics are printed as nested objects. -/
theorem printStats_eq (id : Text) (s : Stats) :
    printStats id true s = objectText (statsMembers id s) ++ ['\n'] := by
  have hone : decimal 1 = ['1'] := rfl
  simp [printStats, objectText, membersText, commaSeparated, memberText, quoted, statsMembers,
    memoryMembers, cpuMembers, pidsMembers, ioMembers, hone]

/-- A limit is read back as its number. -/
theorem reads_limit {value : UInt64} (h : value ≠ uint64Max) :
    JsonText.Reads (printLimit value) (.num value.toNat 0) := by
  rw [printLimit, if_neg h]
  exact reads_decimal _

/-- `max` is no JSON value. -/
theorem fails_limit : Fails (printLimit uint64Max) := by
  intro n rest hn
  obtain ⟨n, rfl⟩ := Nat.exists_eq_succ_of_ne_zero (by omega : n ≠ 0)
  have htext : printLimit uint64Max ++ rest = 'm' :: 'a' :: 'x' :: rest := by
    rw [printLimit, if_pos rfl]
    rfl
  rw [htext, Nat.succ_eq_add_one, readValue, skipSpace_cons rfl]
  simp [readName, readNumber, readUnsigned]

/-- The limits that are read are all numbers. -/
def Stats.Limited (s : Stats) : Prop :=
  s.memoryMax ≠ uint64Max ∧ s.swapMax ≠ uint64Max ∧ s.pidsMax ≠ uint64Max

/-- Statistics are well-formed without `max`. -/
theorem printStats_wellFormed_iff (id : ContainerId) (s : Stats) :
    WellFormed (printStats id.text true s) ↔ s.Limited := by
  have hcpu : JsonText.Reads (objectText (cpuMembers s)) (.obj _) :=
    reads_object (.cons (by decide) (reads_decimal _) <| .cons (by decide) (reads_decimal _) <|
      .single (by decide) (reads_decimal _))
  have hio : JsonText.Reads (objectText (ioMembers s)) (.obj _) :=
    reads_object (.cons (by decide) (reads_decimal _) <| .single (by decide) (reads_decimal _))
  have hid := reads_quoted (plain_id id)
  have hfail (h : MembersFail (statsMembers id.text s)) :
      ¬ WellFormed (printStats id.text true s) := by
    rw [WellFormed, printStats_eq, parse_of_fails (fails_object h)]
    exact Bool.false_ne_true
  -- the first limit that is `max` stops the reader
  by_cases hmemory : s.memoryMax = uint64Max
  · refine iff_of_false (hfail ?_) fun h => h.1 hmemory
    refine .there (by decide) (reads_decimal _) <| .there (by decide) hid <|
      .here (by decide) (fails_object ?_)
    exact .there (by decide) (reads_decimal _) <| .here (by decide) (hmemory ▸ fails_limit)
  by_cases hswap : s.swapMax = uint64Max
  · refine iff_of_false (hfail ?_) fun h => h.2.1 hswap
    refine .there (by decide) (reads_decimal _) <| .there (by decide) hid <|
      .here (by decide) (fails_object ?_)
    exact .there (by decide) (reads_decimal _) <| .there (by decide) (reads_limit hmemory) <|
      .there (by decide) (reads_decimal _) <| .here (by decide) (hswap ▸ fails_limit)
  have hmem : JsonText.Reads (objectText (memoryMembers s)) (.obj _) :=
    reads_object (.cons (by decide) (reads_decimal _) <| .cons (by decide) (reads_limit hmemory) <|
      .cons (by decide) (reads_decimal _) <| .cons (by decide) (reads_limit hswap) <|
      .cons (by decide) (reads_decimal _) <| .single (by decide) (reads_decimal _))
  by_cases hpids : s.pidsMax = uint64Max
  · refine iff_of_false (hfail ?_) fun h => h.2.2 hpids
    refine .there (by decide) (reads_decimal _) <| .there (by decide) hid <|
      .there (by decide) hmem <| .there (by decide) hcpu <| .here (by decide) (fails_object ?_)
    exact .there (by decide) (reads_decimal _) <| .here (by decide) (hpids ▸ fails_limit)
  · refine iff_of_true ?_ ⟨hmemory, hswap, hpids⟩
    have hpid : JsonText.Reads (objectText (pidsMembers s)) (.obj _) :=
      reads_object (.cons (by decide) (reads_decimal _) <|
        .single (by decide) (reads_limit hpids))
    have hall : JsonText.Reads (objectText (statsMembers id.text s)) (.obj _) :=
      reads_object (.cons (by decide) (reads_decimal 1) <| .cons (by decide) hid <|
        .cons (by decide) hmem <| .cons (by decide) hcpu <| .cons (by decide) hpid <|
        .single (by decide) hio)
    rw [WellFormed, printStats_eq, parse_of_reads hall]
    rfl

/-! ## The documents -/

/-- The documents of JSON mode, where the messages of the system are plain texts. An error is
    printed as a document that gives it back exactly when its three texts are plain; the list
    of containers is well-formed for all that the program has written; and the statistics are
    well-formed exactly when the limits that were read are numbers. -/
theorem json_wellFormed_iff {strerror : Errno → Text}
    (hstrerror : ∀ errno, Plain (strerror errno)) :
    (∀ e : McError, (∃ document, parse (errorPrint strerror e true) = some document ∧
        Describes document e) ↔ Plain e.operation ∧ Plain e.resource ∧ Plain e.message) ∧
    (∀ (host : Host) (includeStopped : Bool) (entries : List ListEntry),
      (∀ entry ∈ entries, entry.Written host) →
        WellFormed (listText true (entries.filterMap (·.row includeStopped)))) ∧
    ∀ (files : Text → Option Text) (id : ContainerId) (s : Stats),
      readStats files id.text = some s → ∃ text, statsPrint files id.text true = .ok text ∧
        (WellFormed text ↔ s.Limited) := by
  refine ⟨fun e => ⟨?_, ?_⟩, fun host includeStopped entries h => ?_, fun files id s hs => ?_⟩
  · rintro ⟨document, hparse, hd⟩
    exact plain_of_describes hparse hd
  · rintro ⟨hoperation, hresource, hmessage⟩
    refine parse_errorPrint hoperation hresource hmessage ?_
    unfold systemText
    split
    · exact plain_nil
    · exact hstrerror e.errno
  · exact listText_wellFormed h includeStopped
  · refine ⟨printStats id.text true s, ?_, printStats_wellFormed_iff id s⟩
    rw [statsPrint, hs]

/-- A reference that no container has. -/
def missingError (reference : String) : McError :=
  errorSet .notFound .zero "resolve-container" reference.toList "container not found"

/-- The error of `stats --json web`. -/
theorem json_wellFormed_web : ∃ document,
    parse (errorPrint (fun _ => "Success".toList) (missingError "web") true) = some document ∧
      Describes document (missingError "web") :=
  ((json_wellFormed_iff fun _ => by decide).1 _).mpr ⟨by decide, by decide, by decide⟩

/-- The files of a container without a limit on its memory. -/
def unlimitedFiles : Text → Option Text := fun path =>
  if path = makePath (plainId 0).text "state.json".toList then
    some "\x7b\"cgroup_path\":\"/c\"\x7d".toList
  else if path = "/c/memory.max".toList then some "max\n".toList
  else if path = "/c/cpu.stat".toList then
    some "usage_usec 5\nnr_throttled 0\nthrottled_usec 0\n".toList
  else some "0\n".toList

/-- A quote in a reference ends the member `resource`, and the word `max` is printed for a
    limit: neither document is a JSON text. -/
theorem json_malformed :
    ¬ WellFormed (errorPrint (fun _ => []) (missingError "a\"b") true) ∧
      ∃ text, statsPrint unlimitedFiles (plainId 0).text true = .ok text ∧ ¬ WellFormed text := by
  refine ⟨by decide +kernel, ?_⟩
  have hstats : (statsPrint unlimitedFiles (plainId 0).text true).toOption.any
      (fun text => !(parse text).isSome) = true := by
    decide +kernel
  cases htext : statsPrint unlimitedFiles (plainId 0).text true with
  | error e => simp [htext, Except.toOption] at hstats
  | ok text => exact ⟨text, rfl, by simpa [htext, Except.toOption, WellFormed] using hstats⟩

end MiniContainer
