import GatewayConsole.Calendar
import GatewayConsole.Js
import GatewayConsole.Numeral
import GatewayConsole.Restarts

/-!
# What the pages show of a time

`formatTimestamp` of `admin-ui/admin/lib/format.js`. It takes the text of `toISOString`, puts
a blank for the `T` and takes the milliseconds out, by a pattern at the end of the text.

`Names text second` is what such a text is for: the date and the time of day of one second, in
UTC. `formatTimestamp_exact` says that the time shown is the one that names the second, for
the times after the first of 1970 that a `Date` has and for no others, and that a text names
one second only.
-/

namespace GatewayConsole

/-! ## The function -/

/-- The year of `toISOString`: four digits, or a sign and six. -/
def isoYear (y : Int) : List Char :=
  if 0 ≤ y ∧ y ≤ 9999 then padded 4 y.toNat
  else (if y < 0 then '-' else '+') :: padded 6 y.natAbs

def isoDate (date : Date) : List Char :=
  isoYear date.year ++ '-' :: padded 2 date.month ++ '-' :: padded 2 date.day

/-- Hours, minutes and seconds, of a second of the day. -/
def clock (second : Nat) : List Char :=
  padded 2 (second / 3600) ++ ':' :: padded 2 (second / 60 % 60) ++ ':' :: padded 2 (second % 60)

/-- `new Date(t).toISOString()`, none being the `RangeError`. -/
def toISOString (t : Int) : Option String :=
  if t.natAbs ≤ maxTime.natAbs then
    let ms := (t % 86400000).toNat
    some (String.ofList
      (isoDate (dateOfDay (t / 86400000)) ++ 'T' :: clock (ms / 1000) ++ '.' :: padded 3 (ms % 1000)
        ++ ['Z']))
  else none

/-- The first `c` of a text made a `d`. -/
def replaceFirst (c d : Char) : List Char → List Char
  | [] => []
  | x :: xs => if x = c then d :: xs else x :: replaceFirst c d xs

/-- `s.replace(/\.\d{3}Z$/, "Z")`, from the end. -/
def stripMillis (s : List Char) : List Char :=
  match s.reverse with
  | 'Z' :: c :: b :: a :: '.' :: rest =>
      if a.isDigit && b.isDigit && c.isDigit then rest.reverse ++ ['Z'] else s
  | _ => s

/-- Of null, undefined, or a number; none when it throws. -/
def formatTimestamp : Option Num → Option String
  | none | some .nan => some "—"
  | some (.int ms) =>
      if ms ≤ 0 then some "—"
      else
        (toISOString ms).map fun text =>
          String.ofList (stripMillis (replaceFirst 'T' ' ' text.toList))

/-! ## The text -/

/-- What is shown of a second of a day. -/
def timestampText (date : Date) (second : Nat) : List Char :=
  isoDate date ++ ' ' :: clock second ++ ['Z']

/-- The text names a second, counted from the first of 1970. -/
def Names (text : String) (second : Int) : Prop :=
  ∃ (date : Date) (ofDay : Nat), ofDay < 86400 ∧ second = dayOfDate date * 86400 + ofDay
    ∧ text.toList = timestampText date ofDay

theorem isoYear_ne_T (y : Int) : ∀ c ∈ isoYear y, c ≠ 'T' := by
  rintro c hc rfl
  unfold isoYear at hc
  split at hc
  · exact absurd (padded_digits _ _ _ hc) (by decide)
  · rcases List.mem_cons.mp hc with hsign | hdigit
    · split at hsign <;> cases hsign
    · exact absurd (padded_digits _ _ _ hdigit) (by decide)

theorem isoDate_ne_T (date : Date) : ∀ c ∈ isoDate date, c ≠ 'T' := by
  rintro c hc rfl
  simp only [isoDate, List.mem_append, List.mem_cons] at hc
  rcases hc with (hyear | hdash | hmonth) | hdash | hday
  · exact isoYear_ne_T _ _ hyear rfl
  · cases hdash
  · exact absurd (padded_digits _ _ _ hmonth) (by decide)
  · cases hdash
  · exact absurd (padded_digits _ _ _ hday) (by decide)

theorem replaceFirst_append {c d : Char} {xs ys : List Char} (h : ∀ x ∈ xs, x ≠ c) :
    replaceFirst c d (xs ++ c :: ys) = xs ++ d :: ys := by
  induction xs with
  | nil => exact if_pos rfl
  | cons x xs ih =>
      rw [List.cons_append, replaceFirst, if_neg (h x List.mem_cons_self),
        ih fun y hy => h y (List.mem_cons_of_mem x hy), List.cons_append]

theorem stripMillis_append {xs ds : List Char} (hlength : ds.length = 3)
    (hdigits : ∀ c ∈ ds, c.isDigit = true) :
    stripMillis (xs ++ '.' :: ds ++ ['Z']) = xs ++ ['Z'] := by
  obtain ⟨a, b, c, rfl⟩ := List.length_eq_three.mp hlength
  have ha := hdigits a (by simp)
  have hb := hdigits b (by simp)
  have hc := hdigits c (by simp)
  simp [stripMillis, ha, hb, hc]

/-- The text that is shown of a time, of its second. -/
theorem formatTimestamp_eq {ms : Int} (hpos : 0 < ms) (hmax : ms ≤ maxTime) :
    formatTimestamp (some (.int ms))
      = some (String.ofList
        (timestampText (dateOfDay (ms / 1000 / 86400)) (ms / 1000 % 86400).toNat)) := by
  have hvalid : ms.natAbs ≤ maxTime.natAbs := by omega
  have hday : ms / 86400000 = ms / 1000 / 86400 := by omega
  have hsecond : (ms % 86400000).toNat / 1000 = (ms / 1000 % 86400).toNat := by omega
  have hmillis : (padded 3 ((ms % 86400000).toNat % 1000)).length = 3 :=
    length_padded (by decide) (Nat.mod_lt _ (by decide))
  rw [formatTimestamp, if_neg (Int.not_le.mpr hpos), toISOString, if_pos hvalid, Option.map_some,
    String.toList_ofList, hday, hsecond, List.append_assoc, List.append_assoc, List.cons_append,
    replaceFirst_append (isoDate_ne_T _), ← List.cons_append, ← List.append_assoc,
    ← List.append_assoc, stripMillis_append hmillis (padded_digits _ _)]
  rfl

theorem padded_ne_cons {width n : Nat} {c : Char} {cs : List Char} (h : c.isDigit = false) :
    padded width n ≠ c :: cs := by
  intro heq
  have hdigit := padded_digits width n c (heq ▸ List.mem_cons_self)
  rw [h] at hdigit
  cases hdigit

theorem isoYear_inj {y z : Int} (h : isoYear y = isoYear z) : y = z := by
  have hsign (y : Int) : (if y < 0 then '-' else '+').isDigit = false := by
    split <;> rfl
  unfold isoYear at h
  by_cases hy : 0 ≤ y ∧ y ≤ 9999
  · by_cases hz : 0 ≤ z ∧ z ≤ 9999
    · rw [if_pos hy, if_pos hz] at h
      have := padded_inj h
      omega
    · rw [if_pos hy, if_neg hz] at h
      exact absurd h (padded_ne_cons (hsign z))
  · by_cases hz : 0 ≤ z ∧ z ≤ 9999
    · rw [if_neg hy, if_pos hz] at h
      exact absurd h.symm (padded_ne_cons (hsign y))
    · rw [if_neg hy, if_neg hz] at h
      obtain ⟨hsame, hdigits⟩ := List.cons.inj h
      have habs := padded_inj hdigits
      by_cases hneg : y < 0
      · rw [if_pos hneg] at hsame
        by_cases hneg' : z < 0
        · omega
        · rw [if_neg hneg'] at hsame
          cases hsame
      · rw [if_neg hneg] at hsame
        by_cases hneg' : z < 0
        · rw [if_pos hneg'] at hsame
          cases hsame
        · omega

/-- Two numbers of two digits behind the same texts. -/
theorem append_padded_inj {xs ys : List Char} {c : Char} {m n : Nat} (hm : m < 100) (hn : n < 100)
    (h : xs ++ c :: padded 2 m = ys ++ c :: padded 2 n) : xs = ys ∧ m = n := by
  have hlength : (c :: padded 2 m).length = (c :: padded 2 n).length := by
    rw [List.length_cons, List.length_cons, length_padded (by decide) hm,
      length_padded (by decide) hn]
  obtain ⟨hxs, hrest⟩ := List.append_inj' h hlength
  exact ⟨hxs, padded_inj (List.cons.inj hrest).2⟩

theorem isoDate_inj {d e : Date} (h : isoDate d = isoDate e) : d = e := by
  have hd := d.month_le
  have hd' := d.day_le_31
  have he := e.month_le
  have he' := e.day_le_31
  obtain ⟨h, hday⟩ := append_padded_inj (by omega) (by omega) h
  obtain ⟨h, hmonth⟩ := append_padded_inj (by omega) (by omega) h
  exact Date.ext (isoYear_inj h) hmonth hday

theorem clock_inj {m n : Nat} (hm : m < 86400) (hn : n < 86400) (h : clock m = clock n) :
    m = n := by
  obtain ⟨h, hseconds⟩ := append_padded_inj (by omega) (by omega) h
  obtain ⟨h, hminutes⟩ := append_padded_inj (by omega) (by omega) h
  have hhours := padded_inj h
  omega

theorem length_clock {n : Nat} (h : n < 86400) : (clock n).length = 8 := by
  simp only [clock, List.length_append, List.length_cons]
  rw [length_padded (by decide) (by omega), length_padded (by decide) (by omega),
    length_padded (by decide) (by omega)]

theorem timestampText_inj {d e : Date} {m n : Nat} (hm : m < 86400) (hn : n < 86400)
    (h : timestampText d m = timestampText e n) : d = e ∧ m = n := by
  obtain ⟨h, -⟩ := List.append_inj' h rfl
  have hlength : (' ' :: clock m).length = (' ' :: clock n).length := by
    rw [List.length_cons, List.length_cons, length_clock hm, length_clock hn]
  obtain ⟨hdate, hclock⟩ := List.append_inj' h hlength
  exact ⟨isoDate_inj hdate, clock_inj hm hn (List.cons.inj hclock).2⟩

/-- A text names one second at most. -/
theorem Names.second_eq {text : String} {a b : Int} (ha : Names text a) (hb : Names text b) :
    a = b := by
  obtain ⟨d, m, hm, rfl, hd⟩ := ha
  obtain ⟨e, n, hn, rfl, he⟩ := hb
  obtain ⟨rfl, rfl⟩ := timestampText_inj hm hn (hd.symm.trans he)
  rfl

theorem names_timestampText (second : Int) :
    Names (String.ofList (timestampText (dateOfDay (second / 86400)) (second % 86400).toNat))
      second := by
  refine ⟨_, _, by omega, ?_, String.toList_ofList⟩
  rw [dayOfDate_dateOfDay]
  omega

/-- A second has one name. -/
theorem Names.text_eq {text : String} {second : Int} (h : Names text second) :
    text = String.ofList (timestampText (dateOfDay (second / 86400)) (second % 86400).toNat) := by
  obtain ⟨date, n, hn, rfl, htext⟩ := h
  have hday : (dayOfDate date * 86400 + n) / 86400 = dayOfDate date := by omega
  have hofDay : ((dayOfDate date * 86400 + n) % 86400).toNat = n := by omega
  rw [hday, hofDay, dateOfDay_dayOfDate, ← htext, String.ofList_toList]

theorem not_names_dash (second : Int) : ¬Names "—" second := by
  rintro ⟨date, n, hn, -, htext⟩
  have hlength := congrArg List.length htext
  simp only [timestampText, List.length_append, List.length_cons, length_clock hn] at hlength
  have hone : "—".toList.length = 1 := rfl
  omega

/-- The texts of the times that a page can show. -/
theorem formatTimestamp_iff {ms : Int} (hpos : 0 < ms) (hmax : ms ≤ maxTime) {text : String} :
    formatTimestamp (some (.int ms)) = some text ↔ Names text (ms / 1000) := by
  rw [formatTimestamp_eq hpos hmax, Option.some.injEq]
  constructor
  · rintro rfl
    exact names_timestampText _
  · intro h
    exact h.text_eq.symm

theorem formatTimestamp_eq_none_iff {ms : Int} :
    formatTimestamp (some (.int ms)) = none ↔ maxTime < ms := by
  have hzero : 0 < maxTime := by decide
  rw [formatTimestamp]
  by_cases hpos : ms ≤ 0
  · simp [hpos]
    omega
  · simp only [hpos, if_false, Option.map_eq_none_iff, toISOString]
    by_cases hmax : ms.natAbs ≤ maxTime.natAbs
    · simp [hmax]
      omega
    · simp [hmax]
      omega

/-- **The time shown is the time to the second, for the times that a page can show.** They
are those after the first of 1970 that a `Date` has, and two of them are shown alike exactly
when they are in the same second. -/
theorem formatTimestamp_exact (ms : Int) :
    ((∃ text, formatTimestamp (some (.int ms)) = some text ∧ Names text (ms / 1000))
        ↔ 0 < ms ∧ ms ≤ maxTime)
      ∧ (formatTimestamp (some (.int ms)) = none ↔ maxTime < ms)
      ∧ ∀ ms', (0 < ms ∧ ms ≤ maxTime) → (0 < ms' ∧ ms' ≤ maxTime) →
        (formatTimestamp (some (.int ms)) = formatTimestamp (some (.int ms'))
          ↔ ms / 1000 = ms' / 1000) := by
  refine ⟨⟨?_, ?_⟩, formatTimestamp_eq_none_iff, ?_⟩
  · rintro ⟨text, htext, hnames⟩
    constructor
    · by_contra hpos
      rw [formatTimestamp, if_pos (Int.not_lt.mp hpos)] at htext
      exact not_names_dash _ (Option.some.inj htext ▸ hnames)
    · by_contra hmax
      rw [formatTimestamp_eq_none_iff.mpr (Int.not_le.mp hmax)] at htext
      cases htext
  · rintro ⟨hpos, hmax⟩
    exact ⟨_, formatTimestamp_eq hpos hmax, names_timestampText _⟩
  · rintro ms' ⟨hpos, hmax⟩ ⟨hpos', hmax'⟩
    constructor
    · intro hsame
      have hnames := (formatTimestamp_iff hpos hmax).mp (formatTimestamp_eq hpos hmax)
      have hnames' := (formatTimestamp_iff hpos' hmax').mp
        (hsame.symm.trans (formatTimestamp_eq hpos hmax))
      exact hnames.second_eq hnames'
    · intro hsame
      rw [formatTimestamp_eq hpos hmax, formatTimestamp_eq hpos' hmax', hsame]

/-- The last second of a year. -/
example : formatTimestamp (some (.int 1767225599999)) = some "2025-12-31 23:59:59Z" := by decide

/-! ## From the daemon's log to the page -/

section Mirror

variable [Unicode]

/-- The second holds the instant, or begins half a millisecond after it at most. -/
structure SecondOf (t : Timestamp) (second : Int) : Prop where
  starts : second * 1000000000 ≤ t.instant + 500000
  ends : t.instant < (second + 1) * 1000000000

/-- **A page shows the second in which the daemon logged the event.** In every run of the
console, however often it is restarted, this goes for every row of the mirror; the decoding
of the timestamp may round it up to the next second. -/
theorem shownTimes {D : Daemon} {fetchLimit : Nat} {intervalMs : Int} {log : List LoggedEvent}
    {es : List ConsoleEvent} {s : Console}
    (hs : (console D fetchLimit intervalMs log).run es = some s) :
    List.Forall₂
      (fun row i => ∃ e t text second, s.poll.log[i]? = some e ∧ e.at = some t
        ∧ formatTimestamp (some (.int row.observedAt)) = some text
        ∧ Names text second ∧ SecondOf t.1 second)
      s.poll.table.rows s.poll.origin := by
  refine (mirrors_over_restarts hs).imp fun row i ⟨e, he, hk, hrow⟩ => ?_
  have htime : e.occurredAt = .int row.observedAt := hrow.observedAt
  have hpos := isKept_pos hk htime
  obtain ⟨logged, hlogged, rfl⟩ := Option.map_eq_some_iff.mp he
  obtain ⟨t, hat, hdecodes⟩ := LoggedEvent.decodesTo htime hpos
  obtain ⟨hstart, hend⟩ := hdecodes.instant_bounds t.2
  exact ⟨logged, t, _, _, hlogged, hat, formatTimestamp_eq hpos hdecodes.le_maxTime,
    names_timestampText _, by omega, by omega⟩

end Mirror

/-- The first event of the log, of which two processes have left a row each. -/
theorem shownTimes_killedRun : ∃ s,
    (@console asciiUnicode Daemon.keeping 1000 30000 [loggedAt 1000]).run
        (killedRun ++ [.poll .resume]) = some s
      ∧ List.Forall₂
        (fun row i => ∃ e t text second, s.poll.log[i]? = some e ∧ e.at = some t
          ∧ formatTimestamp (some (.int row.observedAt)) = some text
          ∧ Names text second ∧ SecondOf t.1 second)
        s.poll.table.rows s.poll.origin := by
  let _ : Unicode := asciiUnicode
  obtain ⟨s, hs, -⟩ := Option.map_eq_some_iff.mp run_killedRun
  exact ⟨s, hs, shownTimes hs⟩

end GatewayConsole
