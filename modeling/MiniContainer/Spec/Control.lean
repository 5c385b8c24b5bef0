import MiniContainer.Native.Control

/-!
# What control requests can do

Every packet is answered exactly once, and only a request of the superuser for a signal
has an effect, as long as the members of the request have the types that the client
writes. `handle_control` does not ask for these types: an operation that is `null` crashes
it, and the accessors convert other values to the numbers and texts it compares with.
-/

namespace MiniContainer.Control

open CString (Text)
open JsonC (Value)
open Signals (Signal nsig requested)

/-- The document asks for this signal. -/
structure AsksFor (root : Value) (number : Int) : Prop where
  version : root.getEx "version" = some (.int 1)
  operation : root.getEx "operation" = some (.str "signal".toList)
  signal : root.getEx "signal" = some (.int number)
  range : 0 < number ∧ number < nsig

/-- The packet is a request of the superuser for this signal. -/
def Asks (tokener : List UInt8 → Option Value) (packet : List UInt8) (uid : Option UInt32)
    (number : Int) : Prop :=
  uid = some 0 ∧ ∃ root, tokener (received packet) = some root ∧ AsksFor root number

/-- What is to be done for a signal. -/
def actionFor (active : Bool) (number : Int) : Action :=
  if number = Signals.sigkill ∧ active = true then .cgroupKill else .pidfdSignal number

/-- The connection is served without a crash and with one reply, and nothing is done that was
    not asked for. -/
def Authorised (asked : Int → Prop) (active : Bool) (outcome : Option Served) : Prop :=
  ∃ served, outcome = some served ∧ (∃ reply, served.replies = [reply]) ∧
    (served.actions = [] ∨ ∃ number, asked number ∧ served.actions = [actionFor active number])

/-- The operation of the document is `null`, or the document reads as a request for a signal
    though its members are of other types. -/
def MisreadDocument (root : Value) : Prop :=
  ∃ version operation, root.getEx "version" = some version ∧ version.getInt = 1 ∧
    root.getEx "operation" = some operation ∧
    (operation.getString = none ∨
      ∃ text value, operation.getString = some text ∧ untilNul text = "signal".toList ∧
        root.getEx "signal" = some value ∧ 0 < value.getInt ∧ value.getInt < nsig ∧
        ¬(version = .int 1 ∧ operation = .str "signal".toList ∧ ∃ i, value = .int i))

/-- The superuser sends such a document. -/
def Misread (tokener : List UInt8 → Option Value) (packet : List UInt8) (uid : Option UInt32) :
    Prop :=
  packet ≠ [] ∧ uid = some 0 ∧ ∃ root, tokener (received packet) = some root ∧
    MisreadDocument root

/-! ## Replies and actions -/

section Serving

variable {active delivered : Bool} {number : Int}

theorem exists_reply_refused : ∀ message ∈ ["invalid request", "permission denied",
    "cgroup kill failed", "pidfd signal failed"], ∃ reply, (refused message).replies = [reply] := by
  simp only [List.forall_mem_cons, List.not_mem_nil, false_imp_iff, implies_true, and_true]
  exact ⟨⟨_, rfl⟩, ⟨_, rfl⟩, ⟨_, rfl⟩, ⟨_, rfl⟩⟩

/-- A signal that is not in range is refused. -/
theorem deliver_eq_invalid (h : ¬(0 < number ∧ number < nsig)) :
    deliver active delivered number = invalid := by
  rw [deliver, if_pos (by omega)]

/-- The delivery is answered with one packet. -/
theorem deliver_reply : ∃ reply, (deliver active delivered number).replies = [reply] := by
  unfold deliver
  split
  · exact exists_reply_refused _ (by simp)
  · split
    · split
      · split
        · exact ⟨_, rfl⟩
        · exact exists_reply_refused _ (by simp)
      · split
        · exact ⟨_, rfl⟩
        · exact exists_reply_refused _ (by simp)
    · split
      · exact ⟨_, rfl⟩
      · exact exists_reply_refused _ (by simp)

/-- A signal in range is delivered, or nothing is done. -/
theorem deliver_actions (h : 0 < number ∧ number < nsig) :
    (deliver active delivered number).actions =
      if delivered then [actionFor active number] else [] := by
  rw [deliver, if_neg (by omega)]
  unfold actionFor
  cases active <;> cases delivered <;> by_cases hkill : number = Signals.sigkill <;>
    simp [hkill, refused]

end Serving

/-! ## Documents -/

section Documents

variable {root : Value}

/-- When the checks crash. -/
theorem requested_eq_none_iff :
    requested root = none ↔ ∃ version operation, root.getEx "version" = some version ∧
      version.getInt = 1 ∧ root.getEx "operation" = some operation ∧
      operation.getString = none := by
  unfold requested
  cases hversion : root.getEx "version" with
  | none => simp
  | some version =>
    by_cases hone : version.getInt = 1
    · cases hoperation : root.getEx "operation" with
      | none => simp [hone]
      | some operation =>
        simp only [hone, ne_eq, not_true_eq_false, if_false]
        cases htext : operation.getString with
        | none => simp [hone, htext]
        | some text =>
          dsimp only
          split <;> simp [htext]
    · simp [hone]

/-- When they find a number. -/
theorem requested_eq_some_iff {number : Int} :
    requested root = some (some number) ↔ ∃ version operation text value,
      root.getEx "version" = some version ∧ version.getInt = 1 ∧
      root.getEx "operation" = some operation ∧ operation.getString = some text ∧
      untilNul text = "signal".toList ∧ root.getEx "signal" = some value ∧
      value.getInt = number := by
  unfold requested
  cases hversion : root.getEx "version" with
  | none => simp
  | some version =>
    by_cases hone : version.getInt = 1
    · cases hoperation : root.getEx "operation" with
      | none => simp [hone]
      | some operation =>
        simp only [hone, ne_eq, not_true_eq_false, if_false]
        cases htext : operation.getString with
        | none => simp [htext]
        | some text =>
          dsimp only
          by_cases hsignal : untilNul text = "signal".toList
          · rw [if_neg (not_not_intro hsignal)]
            simp [hone, htext, hsignal]
          · rw [if_pos hsignal]
            simp only [Option.some.injEq, reduceCtorEq, false_iff]
            rintro ⟨_, _, _, _, rfl, -, rfl, htext', hsignal', -⟩
            rw [htext] at htext'
            exact hsignal (Option.some.inj htext' ▸ hsignal')
    · simp [hone]

/-- A number that a well typed member stands for. -/
theorem getInt_int_eq {i : Int} (h : 0 < (Value.int i).getInt ∧ (Value.int i).getInt < nsig) :
    (Value.int i).getInt = i := by
  simp only [Value.getInt, Value.getInt64, nsig] at h ⊢
  omega

variable {active : Bool}

/-- A refusal does nothing. -/
theorem authorised_refused {asked : Int → Prop} {message : String} (h : message ∈
    ["invalid request", "permission denied", "cgroup kill failed", "pidfd signal failed"]) :
    Authorised asked active (some (refused message)) :=
  ⟨_, rfl, exists_reply_refused message h, .inl rfl⟩

/-- A document that reads as a request is served if and only if its members are of the right
    types. -/
theorem authorised_deliver_iff {version operation value : Value}
    (hversion : root.getEx "version" = some version)
    (hoperation : root.getEx "operation" = some operation)
    (hvalue : root.getEx "signal" = some value) :
    (∀ delivered, Authorised (AsksFor root) active (some (deliver active delivered value.getInt))) ↔
      ¬(0 < value.getInt ∧ value.getInt < nsig) ∨
        (version = .int 1 ∧ operation = .str "signal".toList ∧ ∃ i, value = .int i) := by
  by_cases hrange : 0 < value.getInt ∧ value.getInt < nsig
  · constructor
    · -- a signal that is delivered must have been asked for
      intro h
      obtain ⟨served, hserved, -, hactions⟩ := h true
      cases hserved
      rw [deliver_actions hrange, if_pos rfl] at hactions
      rcases hactions with hnil | ⟨number, hasks, -⟩
      · cases hnil
      · exact .inr ⟨Option.some.inj (hversion.symm.trans hasks.version),
          Option.some.inj (hoperation.symm.trans hasks.operation), number,
          Option.some.inj (hvalue.symm.trans hasks.signal)⟩
    · intro h delivered
      obtain ⟨rfl, rfl, i, rfl⟩ := h.resolve_left (not_not_intro hrange)
      have hi := getInt_int_eq hrange
      rw [hi] at hrange ⊢
      refine ⟨_, rfl, deliver_reply, ?_⟩
      rw [deliver_actions hrange]
      split
      · exact .inr ⟨i, ⟨hversion, hoperation, hvalue, hrange⟩, rfl⟩
      · exact .inl rfl
  · simp only [deliver_eq_invalid hrange]
    exact ⟨fun _ => .inl hrange, fun _ delivered => authorised_refused (by simp)⟩

/-- A document is served if and only if it is not misread. -/
theorem authorised_document_iff :
    (∀ delivered, Authorised (AsksFor root) active
      ((requested root).map (serve active delivered))) ↔ ¬ MisreadDocument root := by
  cases hrequested : requested root with
  | none =>
    obtain ⟨version, operation, hversion, hone, hoperation, hnull⟩ :=
      requested_eq_none_iff.mp hrequested
    refine ⟨fun h => ?_,
      fun h => absurd ⟨version, operation, hversion, hone, hoperation, .inl hnull⟩ h⟩
    obtain ⟨served, hserved, -⟩ := h true
    cases hserved
  | some asked =>
    cases asked with
    | none =>
      refine ⟨?_, fun _ delivered => authorised_refused (by simp)⟩
      rintro - ⟨version, operation, hversion, hone, hoperation, hcase⟩
      rcases hcase with hnull | ⟨text, value, htext, hsignal, hvalue, -⟩
      · rw [requested_eq_none_iff.mpr ⟨_, _, hversion, hone, hoperation, hnull⟩] at hrequested
        cases hrequested
      · rw [requested_eq_some_iff.mpr
          ⟨_, _, _, _, hversion, hone, hoperation, htext, hsignal, hvalue, rfl⟩] at hrequested
        cases hrequested
    | some number =>
      obtain ⟨version, operation, text, value, hversion, hone, hoperation, htext, hsignal, hvalue,
        rfl⟩ := requested_eq_some_iff.mp hrequested
      simp only [Option.map_some, serve]
      rw [authorised_deliver_iff hversion hoperation hvalue]
      constructor
      · rintro h ⟨version', operation', hversion', -, hoperation', hcase⟩
        obtain rfl := Option.some.inj (hversion.symm.trans hversion')
        obtain rfl := Option.some.inj (hoperation.symm.trans hoperation')
        rcases hcase with hnull | ⟨_, value', -, -, hvalue', hpos, hlt, htyped⟩
        · rw [htext] at hnull
          cases hnull
        · obtain rfl := Option.some.inj (hvalue.symm.trans hvalue')
          exact h.elim (fun hrange => hrange ⟨hpos, hlt⟩) htyped
      · intro h
        by_contra hnot
        simp only [not_or, not_not] at hnot
        exact h ⟨version, operation, hversion, hone, hoperation,
          .inr ⟨text, value, htext, hsignal, hvalue, hnot.1.1, hnot.1.2, hnot.2⟩⟩

/-- The packets of a reply; there is none when the shim has crashed. -/
def repliesOf : Signals.Shim → Option (List Text)
  | .replying ok message => some (controlReply ok message)
  | _ => none

/-- The signal model replies the same. -/
theorem repliesOf_handleControl {r : Signals.Request} (hroot : r.root = some root)
    (hreceived : r.received = true) (huid : r.uid = 0) (answer : Signals.Answer)
    (s : Signals.State) :
    repliesOf (Signals.handleControl answer r s).shim =
      (requested root).map fun number => (serve s.cgroupActive (!answer.fault) number).replies := by
  have hsignal : r.signal = requested root := by rw [Signals.Request.signal, hroot]
  unfold Signals.handleControl
  simp only [hreceived, huid, hsignal, Bool.not_true, Bool.false_eq_true, if_false, ne_eq,
    not_true_eq_false]
  cases requested root with
  | none => rfl
  | some number =>
    cases number with
    | none => rfl
    | some number =>
      by_cases hrange : number ≤ 0 ∨ (nsig : Int) ≤ number
      · simp [hrange, serve, deliver, repliesOf, invalid, refused]
      · have hkill : number.toNat = Signals.sigkill ↔ number = Signals.sigkill := by
          simp only [not_or, Signals.sigkill] at hrange ⊢
          omega
        simp only [hrange, if_false, hkill, Option.map_some, serve, deliver]
        cases s.cgroupActive <;> cases answer.fault <;> by_cases h : number = Signals.sigkill <;>
          simp [h, repliesOf, refused]

end Documents

/-! ## Connections -/

section Connections

variable {tokener : List UInt8 → Option Value} {active : Bool} {packet : List UInt8}
  {uid : Option UInt32}

/-- Other users are refused. -/
theorem handleControl_uid (hne : packet ≠ []) (huid : uid ≠ some 0) (delivered : Bool) :
    handleControl tokener active delivered (some packet) uid =
      some (refused "permission denied") := by
  cases packet with
  | nil => exact absurd rfl hne
  | cons b bs => simp [handleControl, huid]

/-- For root the document decides. -/
theorem handleControl_tokener (hne : packet ≠ []) (huid : uid = some 0) (delivered : Bool) :
    handleControl tokener active delivered (some packet) uid =
      (tokener (received packet)).elim (some invalid) fun root =>
        (requested root).map (serve active delivered) := by
  cases packet with
  | nil => exact absurd rfl hne
  | cons b bs =>
    subst huid
    simp only [handleControl, ne_eq, not_true_eq_false, if_false]
    cases tokener (received (b :: bs)) <;> rfl

/-- For every packet from every peer, whether the system calls succeed or not, the connection is
    served with one reply and nothing is done without authority if and only if the packet is
    not misread. -/
theorem handleControl_authorised_iff (tokener : List UInt8 → Option Value) (active : Bool)
    (packet : List UInt8) (uid : Option UInt32) :
    (∀ delivered, Authorised (Asks tokener packet uid) active
      (handleControl tokener active delivered (some packet) uid)) ↔
      ¬ Misread tokener packet uid := by
  by_cases hne : packet = []
  · subst hne
    exact ⟨fun _ h => h.1 rfl, fun _ delivered => authorised_refused (by simp)⟩
  by_cases huid : uid = some 0
  · simp only [handleControl_tokener hne huid]
    cases hroot : tokener (received packet) with
    | none =>
      refine ⟨?_, fun _ delivered => authorised_refused (by simp)⟩
      rintro - ⟨-, -, root, hroot', -⟩
      rw [hroot] at hroot'
      cases hroot'
    | some root =>
      -- the document decides
      have hasks : Asks tokener packet uid = AsksFor root := by
        funext number
        simp [Asks, huid, hroot]
      have hmisread : Misread tokener packet uid ↔ MisreadDocument root := by
        simp [Misread, hne, huid, hroot]
      rw [hasks, hmisread]
      exact authorised_document_iff
  · simp only [handleControl_uid hne huid]
    exact ⟨fun _ h => huid h.2.1, fun _ delivered => authorised_refused (by simp)⟩

/-- The request `{"version": 1, "operation": null}`. -/
def nullOperation : List UInt8 :=
  "\x7b\"version\": 1, \"operation\": null\x7d".toList.map fun c => UInt8.ofNat c.toNat

/-- What `json_tokener_parse` makes of this request. -/
def nullTokener (bytes : List UInt8) : Option Value :=
  if bytes = nullOperation then some (.obj [("version", .int 1), ("operation", .null)]) else none

/-- The request crashes the shim. -/
theorem handleControl_null_crashes :
    handleControl nullTokener true true (some nullOperation) (some 0) = none ∧
      ¬ Authorised (Asks nullTokener nullOperation (some 0)) true
        (handleControl nullTokener true true (some nullOperation) (some 0)) := by
  have hcrash : handleControl nullTokener true true (some nullOperation) (some 0) = none := by
    decide +kernel
  refine ⟨hcrash, ?_⟩
  rw [hcrash]
  rintro ⟨served, hserved, -⟩
  cases hserved

end Connections

end MiniContainer.Control
