import ChipEight.CommandLine.Arguments

/-!
What the flags of a command line come to.  A flag has one spelling and takes no value, and
no option takes its spelling for a value; so whether it was given can be seen from the words
alone, and the settings read are those that the words call for, in whatever order they
stand and however the options between them are spelled.
-/

namespace ChipEight

/-! ### Spellings -/

namespace Parameter

variable {p q : Parameter}

/-- Whether the parameter is a flag that the run looks at. -/
def isSwitch : Parameter → Bool
  | .shiftFromY | .jumpFromX | .advanceIndex | .plainXor | .dump => true
  | _ => false

def word (p : Parameter) : String :=
  "--" ++ p.long

theorem isSwitch_of_takesValue (h : p.takesValue = true) : p.isSwitch = false := by
  cases p with
  | load | ticks | interval | seed | key => rfl
  | _ => cases h

theorem ofLong?_long (p : Parameter) : ofLong? p.long = some p := by
  cases p <;> decide

theorem long_of_ofLong? {name : String} (h : ofLong? name = some p) : p.long = name := by
  simpa using List.find?_some h

theorem isSwitch_of_ofShort? {letter : Char} (h : ofShort? letter = some p) :
    p.isSwitch = false := by
  have hshort : p.short? = some letter := by simpa using List.find?_some h
  cases p with
  | shiftFromY | jumpFromX | advanceIndex | plainXor | dump => cases hshort
  | _ => rfl

theorem takeWhile_long (p : Parameter) : p.long.toList.takeWhile (· != '=') = p.long.toList := by
  cases p <;> decide

theorem toList_word (p : Parameter) : p.word.toList = '-' :: '-' :: p.long.toList := by
  rw [word, String.toList_append]
  rfl

theorem word_inj : p.word = q.word ↔ p = q := by
  constructor
  · intro h
    have hlong : p.long.toList = q.long.toList := by
      have hlist := congrArg String.toList h
      rw [toList_word, toList_word] at hlist
      exact (List.cons.inj (List.cons.inj hlist).2).2
    have hfound := ofLong?_long p
    rw [String.toList_inj.1 hlong, ofLong?_long] at hfound
    exact (Option.some.inj hfound).symm
  · rintro rfl
    rfl

end Parameter

structure Switches where
  settings : Settings
  dump : Bool

namespace Switches

/-- What a list of words calls for.  The flag for exclusive or turns its setting off, the
others turn theirs on. -/
def ofWords (words : List String) : Switches where
  settings :=
    { shiftFromY := Parameter.word .shiftFromY ∈ words
      jumpFromX := Parameter.word .jumpFromX ∈ words
      advanceIndex := Parameter.word .advanceIndex ∈ words
      xorSetsFlag := Parameter.word .plainXor ∉ words }
  dump := Parameter.word .dump ∈ words

theorem ofWords_of_not_word {w : String} (words : List String)
    (h : ∀ p : Parameter, p.isSwitch = true → p.word ≠ w) :
    ofWords (words ++ [w]) = ofWords words := by
  simp only [ofWords, List.mem_append, List.mem_singleton, h .shiftFromY rfl, h .jumpFromX rfl,
    h .advanceIndex rfl, h .plainXor rfl, h .dump rfl, or_false]

end Switches

def Arguments.switches (a : Arguments) : Switches :=
  ⟨a.settings, a.dump⟩

namespace ArgumentReader

variable {r s : ArgumentReader} {a b : Arguments} {p : Parameter} {value : Option String}
  {text w : String} {words : List String}

theorem bind_ok {ε α β : Type} {x : Except ε α} {f : α → Except ε β} {y : β}
    (h : (x >>= f) = .ok y) : ∃ z, x = .ok z ∧ f z = .ok y := by
  cases x with
  | error e => cases h
  | ok z => exact ⟨z, rfl, h⟩

theorem map_ok {ε α β : Type} {x : Except ε α} {f : α → β} {y : β}
    (h : x.map f = .ok y) : ∃ z, f z = y := by
  cases x with
  | error e => cases h
  | ok z => exact ⟨z, Except.ok.inj h⟩

/-! ### One parameter -/

theorem switches_put_of_not_switch (hp : p.isSwitch = false) (h : put a p text = .ok b) :
    b.switches = a.switches := by
  cases p with
  | load =>
    rw [put] at h
    split at h
    · cases h
    · cases h
      rfl
  | ticks | interval | seed =>
    obtain ⟨n, rfl⟩ := map_ok h
    rfl
  | key =>
    rw [put] at h
    split at h
    · cases h
      rfl
    · cases h
  | help | version =>
    cases h
    rfl
  | _ => cases hp

theorem switches_put_of_switch (hp : p.isSwitch = true) (h : put a p text = .ok b)
    (ha : a.switches = Switches.ofWords words) :
    b.switches = Switches.ofWords (words ++ [p.word]) := by
  obtain ⟨hsettings, hdump⟩ := Switches.mk.inj ha
  cases p with
  | shiftFromY | jumpFromX | advanceIndex | plainXor | dump =>
    cases h
    simp [Arguments.switches, Switches.ofWords, configure, Settings.set, hsettings, hdump,
      Parameter.word_inj]
  | _ => cases hp

theorem exists_put_of_take (h : r.take p value = .ok s) :
    ∃ b, put r.arguments p (value.getD "") = .ok b ∧ s.arguments = b ∧
      s.pending = r.pending := by
  rw [take] at h
  split at h
  · cases h
  split at h
  · cases h
  split at h
  · cases h
  split at h
  · cases h
  split at h
  · cases h
  · rename_i hput
    cases h
    exact ⟨_, hput, rfl, rfl⟩

/-! ### One word -/

/-- The arguments have what the words read so far call for, and no flag waits for a
value. -/
structure Switched (r : ArgumentReader) (words : List String) : Prop where
  switches : r.arguments.switches = Switches.ofWords words
  pending : ∀ p value, r.pending = some (p, value) → p.isSwitch = false

theorem Switched.pass (hr : r.Switched words)
    (h : ∀ p : Parameter, p.isSwitch = true → p.word ≠ w) : r.Switched (words ++ [w]) :=
  ⟨hr.switches.trans (Switches.ofWords_of_not_word words h).symm, hr.pending⟩

theorem Switched.take_of_not_switch (hr : r.Switched words) (hp : p.isSwitch = false)
    (h : r.take p value = .ok s) : s.Switched words := by
  obtain ⟨b, hput, rfl, hpending⟩ := exists_put_of_take h
  exact ⟨(switches_put_of_not_switch hp hput).trans hr.switches, hpending ▸ hr.pending⟩

theorem Switched.take_of_switch (hr : r.Switched words) (hp : p.isSwitch = true)
    (h : r.take p value = .ok s) : s.Switched (words ++ [p.word]) := by
  obtain ⟨b, hput, rfl, hpending⟩ := exists_put_of_take h
  exact ⟨switches_put_of_switch hp hput hr.switches, hpending ▸ hr.pending⟩

theorem Switched.settle (hr : r.Switched words) (h : r.settle = .ok s) : s.Switched words := by
  rw [ArgumentReader.settle] at h
  split at h
  · cases h
    exact hr
  · rename_i p value hpending
    have hcleared : Switched { r with pending := none } words :=
      ⟨hr.switches, fun _ _ h => by cases h⟩
    exact hcleared.take_of_not_switch (hr.pending p value hpending) h

theorem Switched.meet_of_not_switch (hr : r.Switched words) (hp : p.isSwitch = false)
    (h : r.meet p value = .ok s) : s.Switched words := by
  obtain ⟨t, hsettle, htake⟩ := bind_ok h
  exact (hr.settle hsettle).take_of_not_switch hp htake

theorem Switched.meet_of_switch (hr : r.Switched words) (hp : p.isSwitch = true)
    (h : r.meet p value = .ok s) : s.Switched (words ++ [p.word]) := by
  obtain ⟨t, hsettle, htake⟩ := bind_ok h
  exact (hr.settle hsettle).take_of_switch hp htake

theorem Switched.expectValue (hr : r.Switched words) (hp : p.isSwitch = false)
    (h : r.expectValue p = .ok s) : s.Switched words := by
  obtain ⟨t, hsettle, hpending⟩ := bind_ok h
  cases hpending
  refine ⟨(hr.settle hsettle).switches, fun q value hq => ?_⟩
  cases hq
  exact hp

theorem word_ne_of_ofLong? {cs : List Char} (hw : w.toList = '-' :: '-' :: cs)
    (hlong : Parameter.ofLong? (String.ofList (cs.takeWhile (· != '='))) = some p)
    (hp : p.isSwitch = false) (q : Parameter) (hq : q.isSwitch = true) : q.word ≠ w := by
  rintro rfl
  rw [Parameter.toList_word] at hw
  obtain rfl : q.long.toList = cs := (List.cons.inj (List.cons.inj hw).2).2
  rw [Parameter.takeWhile_long, String.ofList_toList, Parameter.ofLong?_long] at hlong
  obtain rfl := Option.some.inj hlong
  rw [hp] at hq
  cases hq

theorem word_of_ofLong? {cs : List Char} (hw : w.toList = '-' :: '-' :: cs)
    (hlong : Parameter.ofLong? (String.ofList (cs.takeWhile (· != '='))) = some p)
    (hvalue : cs.dropWhile (· != '=') = []) : w = p.word := by
  have hname := List.takeWhile_append_dropWhile (p := (· != '=')) (l := cs)
  rw [hvalue, List.append_nil] at hname
  have hcs : p.long.toList = cs := by
    rw [Parameter.long_of_ofLong? hlong, String.toList_ofList, hname]
  rw [← String.toList_inj, hw, Parameter.toList_word, hcs]

theorem Switched.readLong {cs : List Char} (hr : r.Switched words)
    (hw : w.toList = '-' :: '-' :: cs) (h : r.readLong cs = .ok s) :
    s.Switched (words ++ [w]) := by
  rw [ArgumentReader.readLong] at h
  split at h
  · cases h
  · rename_i p hlong
    cases hp : p.isSwitch with
    | true =>
      split at h
      · rename_i hvalue _
        rw [Parameter.isSwitch_of_takesValue hvalue] at hp
        cases hp
      · rename_i hvalue _
        rw [Parameter.isSwitch_of_takesValue hvalue] at hp
        cases hp
      · rename_i hnone
        split at hnone
        · rename_i hrest
          rw [word_of_ofLong? hw hlong hrest]
          exact hr.meet_of_switch hp h
        · cases hnone
      · cases h
    | false =>
      refine Switched.pass ?_ (word_ne_of_ofLong? hw hlong hp)
      split at h
      · exact hr.expectValue hp h
      · exact hr.meet_of_not_switch hp h
      · exact hr.meet_of_not_switch hp h
      · cases h

theorem Switched.readShort {cs : List Char} (hr : r.Switched words)
    (h : r.readShort cs = .ok s) : s.Switched words := by
  induction cs generalizing r with
  | nil =>
    cases h
    exact hr
  | cons c rest ih =>
    rw [ArgumentReader.readShort] at h
    split at h
    · cases h
    · rename_i p hshort
      have hp := Parameter.isSwitch_of_ofShort? hshort
      split at h
      · split at h
        · exact hr.expectValue hp h
        · exact hr.meet_of_not_switch hp h
        · exact hr.meet_of_not_switch hp h
      · obtain ⟨t, hmeet, hrest⟩ := bind_ok h
        exact ih (hr.meet_of_not_switch hp hmeet) hrest

theorem Switched.readValue (hr : r.Switched words) (h : r.readValue w = .ok s) :
    s.Switched words := by
  rw [ArgumentReader.readValue] at h
  split at h
  · rename_i p hpending
    cases h
    refine ⟨hr.switches, fun q value hq => ?_⟩
    cases hq
    exact hr.pending p none hpending
  · cases h

theorem Switched.readArgument (hr : r.Switched words) (h : r.readArgument w = .ok s) :
    s.Switched (words ++ [w]) := by
  rw [ArgumentReader.readArgument] at h
  split at h
  · rename_i cs hw
    exact hr.readLong hw h
  · rename_i letter rest hletter hw
    refine (hr.readShort h).pass ?_
    rintro p - rfl
    rw [Parameter.toList_word] at hw
    cases hw
    exact hletter rfl
  · rename_i hlong _
    refine (hr.readValue h).pass ?_
    rintro p - rfl
    exact hlong _ p.toList_word

/-! ### All words -/

theorem Switched.readAll {rest : List String} (hr : r.Switched words)
    (h : r.readAll rest = .ok s) : s.Switched (words ++ rest) := by
  induction rest generalizing r words with
  | nil =>
    rw [List.append_nil]
    exact hr.settle h
  | cons w rest ih =>
    rw [ArgumentReader.readAll.eq_def] at h
    split at h
    · rename_i heq
      cases heq
    · rename_i heq
      cases heq
      refine (hr.settle h).pass fun p hp heq => ?_
      have hlist := congrArg String.toList heq
      rw [Parameter.toList_word] at hlist
      cases p <;> cases hp <;> cases hlist
    · cases h
    · rename_i heq
      cases heq
      obtain ⟨t, hargument, hrest⟩ := bind_ok h
      have hall := ih (hr.readArgument hargument) hrest
      rwa [List.append_assoc, List.singleton_append] at hall

end ArgumentReader

end ChipEight
