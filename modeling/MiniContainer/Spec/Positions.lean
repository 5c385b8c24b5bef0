import MiniContainer.Native.Positions

/-!
# The position-wise checks compute the checks on texts

Each function of `MiniContainer.Native.Positions` returns what its counterpart on texts says, so
no access lies behind a terminating NUL. The exception is `mc_parse_tmpfs_mount`, which starts its
search at the second character: on the empty string that is behind the NUL
(`mounts_inBounds_iff`).
-/

namespace MiniContainer

open CString (Text Outside peek pieces strchr strlenAt strchrAt strncmpAt strcmpAt strstrAt
  peek_eq strchrAt_eq strcmpAt_eq strlenAt_eq strstrAt_char strstrAt_eq)

/-- An access that succeeds hands its character on. -/
theorem ok_bind {α β : Type} (a : α) (f : α → Except Outside β) : (Except.ok a >>= f) = f a := rfl

theorem ok_pure {α : Type} (a : α) : (pure a : Except Outside α) = .ok a := rfl

/-! ## Mount targets -/

theorem endsComponent_eq {path : Text} {length : Nat} (h : length ≤ path.length) :
    endsComponent path length =
      .ok ((path.drop length).head? == none || (path.drop length).head? == some '/') := by
  rw [endsComponent, peek_eq h]
  rfl

theorem underPath_eq (path parent : Text) :
    underPath path parent = (parent.isPrefixOf path &&
      ((path.drop parent.length).head? == none ||
          (path.drop parent.length).head? == some '/')) := by
  unfold underPath
  cases path.drop parent.length with
  | nil => rfl
  | cons c rest => simp

theorem underPathAt_eq (path parent : Text) :
    underPathAt path parent = .ok (underPath path parent) := by
  rw [underPathAt, strlenAt_eq (Nat.zero_le _), underPath_eq]
  have hcompare := CString.strncmpAt_length (s := path) parent (Nat.zero_le _)
  rw [List.drop_zero] at hcompare
  simp only [Nat.sub_zero, bind, Except.bind, hcompare]
  by_cases hstarts : parent.isPrefixOf path = true
  · have hle := (List.isPrefixOf_iff_prefix.mp hstarts).length_le
    simp only [hstarts, if_true, endsComponent_eq hle, Bool.true_and]
  · simp only [Bool.not_eq_true] at hstarts
    simp [hstarts, pure, Except.pure]

/-! ## Occurrences of `..` -/

theorem dotDotAt_none {target : Text} {i : Nat} (h : strstrAt target "..".toList i = .ok none) :
    dotDotAt target i = .ok false := by
  rw [dotDotAt]
  split <;> simp_all

theorem dotDotAt_some {target : Text} {i found : Nat}
    (h : strstrAt target "..".toList i = .ok (some found)) :
    dotDotAt target i =
      (wholeComponent target found).bind fun whole =>
        if whole then .ok true else dotDotAt target (found + 2) := by
  rw [dotDotAt]
  split
  · simp_all
  · simp_all
  · rename_i found' h'
    obtain rfl := Option.some.inj (Except.ok.inj (h'.symm.trans h))
    cases wholeComponent target found' with
    | error e => rfl
    | ok whole => cases whole <;> rfl

/-- Only where `..` is found does the loop depend on the position. -/
theorem dotDotAt_congr {target : Text} {i j : Nat} (hj : j ≤ target.length)
    (h : strstrAt target "..".toList i = strstrAt target "..".toList j) :
    dotDotAt target i = dotDotAt target j := by
  have hok := strstrAt_eq "..".toList hj
  generalize ((CString.strstr "..".toList (target.drop j)).map _) = found at hok
  cases found with
  | none => rw [dotDotAt_none (h.trans hok), dotDotAt_none hok]
  | some found => rw [dotDotAt_some (h.trans hok), dotDotAt_some hok]

theorem dotDotComponent_skip {previous : Option Char} {c : Char} {s : Text}
    (h : ¬"..".toList <+: c :: s) :
    dotDotComponent previous (c :: s) = dotDotComponent (some c) s := by
  rw [dotDotComponent]
  rintro rest rfl rfl
  exact h ⟨rest, rfl⟩

/-- The character in front of a position. -/
def previousAt (target : Text) (i : Nat) : Option Char :=
  if i = 0 then none else target[i - 1]?

theorem previousAt_succ {target : Text} {i : Nat} {c : Char}
    (h : target.drop i = c :: target.drop (i + 1)) : previousAt target (i + 1) = some c := by
  rw [previousAt, if_neg (Nat.succ_ne_zero i), Nat.add_sub_cancel, ← List.head?_drop, h,
    List.head?_cons]

theorem startsComponent_eq {target : Text} {i : Nat} (h : i ≤ target.length) :
    startsComponent target i =
      .ok (previousAt target i == none || previousAt target i == some '/') := by
  unfold startsComponent previousAt
  split
  · rfl
  · rw [peek, if_pos (by omega), List.getElem?_eq_getElem (by omega)]
    rfl

theorem wholeComponent_eq {target : Text} {i : Nat} (h : i + 2 ≤ target.length) :
    wholeComponent target i =
      .ok ((previousAt target i == none || previousAt target i == some '/') &&
        ((target.drop (i + 2)).isEmpty || (target.drop (i + 2)).head? == some '/')) := by
  have hends : ((target.drop (i + 2)).head? == none) = (target.drop (i + 2)).isEmpty := by
    cases target.drop (i + 2) <;> rfl
  rw [wholeComponent, startsComponent_eq (by omega), endsComponent_eq h, hends]
  cases previousAt target i == none || previousAt target i == some '/' <;> rfl

theorem dotDotAt_eq {target : Text} {i : Nat} (h : i ≤ target.length) :
    dotDotAt target i = .ok (dotDotComponent (previousAt target i) (target.drop i)) := by
  induction hn : target.length - i using Nat.strong_induction_on generalizing i with
  | _ n ih =>
    obtain ⟨rfl, hdrop, -⟩ | ⟨c, hlt, hdrop, hpeek⟩ := CString.peek_cases h
    · have hnone := strstrAt_eq "..".toList h
      rw [hdrop] at hnone ⊢
      exact dotDotAt_none hnone
    · by_cases hstarts : "..".toList <+: target.drop i
      · obtain ⟨rest, hrest⟩ := hstarts
        have htwo : target.drop (i + 2) = rest := by
          rw [← List.drop_drop, ← hrest]
          rfl
        have hle : i + 2 ≤ target.length := by
          have hlength := congrArg List.length hrest
          rw [List.length_append, List.length_drop] at hlength
          have : "..".toList.length = 2 := rfl
          omega
        have hfound : strstrAt target "..".toList i = .ok (some i) := by
          rw [strstrAt_char hpeek, ← hrest]
          rfl
        have hsecond : previousAt target (i + 2) = some '.' := by
          rw [previousAt, if_neg (by omega), show i + 2 - 1 = i + 1 from rfl, ← List.head?_drop,
            ← List.drop_drop, ← hrest]
          rfl
        rw [dotDotAt_some hfound, wholeComponent_eq hle, ← hrest, htwo]
        show _ = Except.ok (dotDotComponent _ ('.' :: '.' :: rest))
        rw [dotDotComponent, Except.bind]
        have hnext := ih _ (by omega) hle rfl
        rw [hsecond, htwo] at hnext
        cases (previousAt target i == none || previousAt target i == some '/') &&
          (rest.isEmpty || rest.head? == some '/') with
        | true => rfl
        | false =>
          rw [if_neg (by decide), hnext, Bool.false_or]
      · have hskip : strstrAt target "..".toList i = strstrAt target "..".toList (i + 1) := by
          rw [strstrAt_char hpeek, if_neg]
          rwa [List.isPrefixOf_iff_prefix]
        rw [dotDotAt_congr hlt hskip, ih _ (by omega) hlt rfl, previousAt_succ hdrop]
        rw [hdrop] at hstarts ⊢
        rw [dotDotComponent_skip hstarts]

/-! ## Targets -/

theorem forbiddenAt_eq (target : Text) (forbidden : List Text) :
    forbiddenAt target forbidden = .ok (forbidden.any (underPath target)) := by
  induction forbidden with
  | nil => rfl
  | cons parent others ih =>
    rw [forbiddenAt, underPathAt_eq, ok_bind, ih, List.any_cons]
    cases underPath target parent <;> rfl

theorem validTargetAt_eq (target : Text) : validTargetAt target = .ok (validTarget target) := by
  cases target with
  | nil => rfl
  | cons c rest =>
    have hdots : dotDotAt (c :: rest) 0 = .ok (dotDotComponent none (c :: rest)) :=
      dotDotAt_eq (Nat.zero_le _)
    have hsecond : peek (c :: rest) 1 = .ok rest.head? := peek_eq (by simp)
    rw [validTargetAt, peek_eq (Nat.zero_le _), ok_bind, hsecond, ok_bind,
      strlenAt_eq (Nat.zero_le _), ok_bind, hdots, ok_bind, forbiddenAt_eq, ok_bind]
    simp only [ok_pure, validTarget, List.drop_zero, List.head?_cons, Nat.sub_zero]
    by_cases hslash : c = '/'
    · cases rest with
      | nil => simp [hslash]
      | cons d rest =>
        have hcompare : pathMax ≤ rest.length + 1 + 1 ↔ ¬rest.length + 1 + 1 < pathMax := by omega
        by_cases hshort : rest.length + 1 + 1 < pathMax
        · cases dotDotComponent none (c :: d :: rest) <;> simp [hslash, hcompare, hshort]
        · simp [hslash, hcompare, hshort]
    · simp [hslash]

/-! ## Options -/

theorem allowedAt_eq (host : Host) (source : Text) (allowed : List JsonC.Value) :
    allowedAt host source allowed = .ok (allowed.any fun entry =>
      (entry.getString.bind host.realpath).any (underPath source)) := by
  induction allowed with
  | nil => rfl
  | cons entry others ih =>
    rw [allowedAt, List.any_cons, ih]
    cases entry.getString.bind host.realpath with
    | none => rfl
    | some resolved =>
      dsimp only
      rw [underPathAt_eq, ok_bind, Option.any_some]
      cases underPath source resolved <;> rfl

theorem bindAllowedAt_eq (host : Host) (source : Text) :
    bindAllowedAt host source = .ok (bindAllowed host source) := by
  unfold bindAllowedAt bindAllowed
  cases host.configFile with
  | none => rfl
  | some root =>
    dsimp only
    cases (root.getEx "allowed_bind_sources").bind JsonC.Value.getArray? with
    | none => rfl
    | some allowed =>
      dsimp only
      rw [allowedAt_eq]
      congr 2
      funext entry
      cases entry.getString.bind host.realpath <;> rfl

theorem bindModeAt_eq (mode : Option Text) : bindModeAt mode = .ok (bindMode mode) := by
  cases mode with
  | none => rfl
  | some mode =>
    rw [bindModeAt, strcmpAt_eq, ok_bind, strcmpAt_eq, ok_bind]
    simp only [bindMode, beq_iff_eq, ok_pure]
    split
    · rfl
    · split <;> rfl

/-- What `strchr` finds takes the text apart. -/
theorem take_drop_of_strchr {c : Char} {s a b : Text} (h : strchr c s = some (a, b)) :
    s.take a.length = a ∧ s.drop (a.length + 1) = b := by
  obtain ⟨rfl, -⟩ := CString.strchr_eq_some h
  constructor
  · simp
  · rw [← List.drop_drop, List.drop_left]
    rfl

theorem bindTargetAt_eq (rest : Text) : bindTargetAt rest = .ok (bindTarget rest) := by
  rw [bindTargetAt, strchrAt_eq _ (Nat.zero_le _), ok_bind, List.drop_zero, bindTarget]
  cases hrest : strchr ':' rest with
  | none => rfl
  | some parts =>
    obtain ⟨htarget, hmode⟩ := take_drop_of_strchr hrest
    simp only [Option.map_some, Nat.zero_add, htarget, hmode]
    rfl

theorem bindMountAt_eq (host : Host) (value : Text) :
    bindMountAt host value = .ok (bindMount host value) := by
  rw [bindMountAt, strchrAt_eq _ (Nat.zero_le _), ok_bind, List.drop_zero, bindMount]
  cases hvalue : strchr ':' value with
  | none => rfl
  | some parts =>
    obtain ⟨source, rest⟩ := parts
    obtain ⟨hsource, hrest⟩ := take_drop_of_strchr hvalue
    simp only [Option.map_some, Nat.zero_add, hsource, hrest]
    rw [bindTargetAt_eq, ok_bind]
    obtain ⟨target, mode⟩ := bindTarget rest
    dsimp only
    rw [peek_eq (Nat.zero_le _), ok_bind, validTargetAt_eq, ok_bind, bindModeAt_eq, ok_bind,
      List.drop_zero]
    by_cases hslash : source.head? = some '/'
    · cases htarget : validTarget target with
      | false => simp [hslash, ok_pure]
      | true =>
        simp only [hslash, ne_eq, not_true_eq_false, if_false, Bool.not_true, Bool.false_eq_true,
          and_self, if_true, ok_pure]
        cases bindMode mode with
        | none => rfl
        | some readonly =>
          cases host.realpath source with
          | none => rfl
          | some resolved =>
            dsimp only
            rw [bindAllowedAt_eq, ok_bind]
            cases host.isDirectory resolved <;> cases bindAllowed host resolved <;> rfl
    · simp [hslash, ok_pure]

theorem tmpfsMountAt_cons (c : Char) (rest : Text) :
    tmpfsMountAt (c :: rest) = .ok (tmpfsMount (c :: rest)) := by
  rw [tmpfsMountAt, strchrAt_eq _ (by simp), ok_bind, tmpfsMount]
  rw [show (c :: rest).drop 1 = rest from rfl]
  cases hrest : strchr ':' rest with
  | none =>
    rw [Option.map_none]
    dsimp only
    rw [validTargetAt_eq, ok_bind]
    split <;> rfl
  | some parts =>
    obtain ⟨target, size⟩ := parts
    obtain ⟨htarget, hsize⟩ := take_drop_of_strchr hrest
    have htake : (c :: rest).take (1 + target.length) = c :: target := by
      rw [Nat.add_comm, List.take_succ_cons, htarget]
    have hdrop : (c :: rest).drop (1 + target.length + 1) = size := by
      rw [Nat.add_comm 1, List.drop_succ_cons, hsize]
    simp only [Option.map_some, htake, hdrop]
    cases parseBytes size with
    | none => rfl
    | some bytes =>
      dsimp only
      rw [validTargetAt_eq, ok_bind]
      by_cases hbytes : bytes ≤ 1073741824
      · rw [if_neg (UInt64.not_lt.mpr hbytes)]
        cases validTarget (c :: target) <;> simp [hbytes, ok_pure]
      · rw [if_pos (UInt64.not_le.mp hbytes)]
        simp [hbytes, ok_pure]

/-- The search for the separator of an empty value starts behind its terminating NUL. -/
theorem tmpfsMountAt_nil : tmpfsMountAt [] = .error ⟨[], 1⟩ := by
  rw [tmpfsMountAt, CString.strchrAt_of_lt (by decide)]
  rfl

/-- The checks of a value, as a mount option, as a target and on either side of `under_path`,
    examine no position behind the terminating NUL of a string. -/
def InBounds (host : Host) (value : Text) : Prop :=
  (∃ mount, bindMountAt host value = .ok mount) ∧ (∃ mount, tmpfsMountAt value = .ok mount) ∧
    (∃ valid, validTargetAt value = .ok valid) ∧
    ∀ other, (∃ under, underPathAt value other = .ok under) ∧
      ∃ under, underPathAt other value = .ok under

theorem mounts_inBounds_iff (host : Host) (value : Text) : InBounds host value ↔ value ≠ [] := by
  constructor
  · rintro ⟨-, ⟨mount, hmount⟩, -⟩ rfl
    rw [tmpfsMountAt_nil] at hmount
    cases hmount
  · intro hne
    refine ⟨⟨_, bindMountAt_eq host value⟩, ?_, ⟨_, validTargetAt_eq value⟩, fun other =>
      ⟨⟨_, underPathAt_eq value other⟩, ⟨_, underPathAt_eq other value⟩⟩⟩
    cases value with
    | nil => exact absurd rfl hne
    | cons c rest => exact ⟨_, tmpfsMountAt_cons c rest⟩

/-- `--tmpfs ''` makes `strchr` read one position behind the terminating NUL of its copy. -/
theorem tmpfs_empty_overruns :
    tmpfsMountAt "".toList = .error ⟨"".toList, 1⟩ ∧ ∀ host, ¬InBounds host "".toList := by
  refine ⟨tmpfsMountAt_nil, fun host hbounds => ?_⟩
  obtain ⟨-, ⟨mount, hmount⟩, -⟩ := hbounds
  rw [show "".toList = [] from rfl, tmpfsMountAt_nil] at hmount
  cases hmount

end MiniContainer
