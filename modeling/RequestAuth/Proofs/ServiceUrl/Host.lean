import Mathlib.Data.List.Basic
import RequestAuth.ServiceUrl

/-!
# The characters of a host

Whatever the text, an authority is made of a few characters of ASCII only, and the host that is
taken from it has none that could end a line or be mistaken for another part of a URL
(`ServiceUrl.IsHost`, `ServiceUrl.isHost_of_host?`).
-/

namespace RequestAuth.ServiceUrl

variable {c : Char} {seen seen' : Seen} {authority after host text : List Char}

/-! ## Characters of an authority -/

/-- The characters that an authority may have, those with a meaning of their own included. -/
def isReadable (c : Char) : Bool :=
  isAuthorityChar c ∨ c ∈ [':', '[', ']', '@', '%']

theorem toNat_lt_of_isReadable (h : isReadable c) : c.toNat < 128 := by
  simp only [isReadable, isAuthorityChar, isAlphanumeric, Bool.decide_or, Bool.or_eq_true,
    decide_eq_true_eq, List.mem_cons, List.not_mem_nil, or_false, Char.le_def,
    UInt32.le_iff_toNat_le] at h
  rcases h with ((h | h | h) | h) | h
  · exact Nat.lt_of_le_of_lt h.2 (by decide)
  · exact Nat.lt_of_le_of_lt h.2 (by decide)
  · exact Nat.lt_of_le_of_lt h.2 (by decide)
  · rcases h with h | h | h | h | h | h | h | h | h | h | h | h | h | h | h <;> subst h <;> decide
  · rcases h with h | h | h | h | h <;> subst h <;> decide

/-- What is true of an authority's characters can be tried on each character of ASCII. -/
theorem of_isReadable {P : Char → Prop}
    (h : ∀ n < 128, isReadable (Char.ofNat n) → P (Char.ofNat n)) (hc : isReadable c) : P c := by
  have small := toNat_lt_of_isReadable hc
  rw [← Char.ofNat_toNat c] at hc ⊢
  exact h c.toNat small hc

theorem next_of_not_isReadable (h : ¬ isReadable c) : seen.next c = .error .invalidChar := by
  simp only [isReadable, decide_eq_true_eq, List.mem_cons, List.not_mem_nil, or_false, not_or] at h
  obtain ⟨plain, colon, opening, closing, atSign, percent⟩ := h
  simp only [Seen.next, if_neg colon, if_neg opening, if_neg closing, if_neg atSign,
    if_neg percent, if_neg plain]

theorem isReadable_of_next (h : seen.next c = .ok seen') : isReadable c := by
  by_contra hc
  rw [next_of_not_isReadable hc] at h
  cases h

/-! ## The end of an authority -/

theorem splitAuthorityFrom_end (h : ∀ c, after.head? = some c → endsAuthority c)
    (hs : seen.mayEnd) : splitAuthorityFrom seen after = .ok ([], after) := by
  cases after with
  | nil => rw [splitAuthorityFrom, if_pos hs]
  | cons c rest => rw [splitAuthorityFrom, if_pos (h c rfl), if_pos hs]

theorem splitAuthorityFrom_cons (hc : ¬ endsAuthority c) (hn : seen.next c = .ok seen') :
    splitAuthorityFrom seen (c :: text) =
      (splitAuthorityFrom seen' text).map fun parts => (c :: parts.1, parts.2) := by
  rw [splitAuthorityFrom, if_neg hc, hn]
  simp only [bind, Except.bind, pure, Except.pure]
  cases splitAuthorityFrom seen' text with
  | error e => rfl
  | ok parts => rfl

/-- Either the authority ends at once, or its first character can be read and the rest follows. -/
theorem splitAuthorityFrom_eq_ok (h : splitAuthorityFrom seen text = .ok (authority, after)) :
    authority = [] ∨ ∃ c rest seen' later, text = c :: rest ∧ authority = c :: later ∧
      ¬ endsAuthority c ∧ seen.next c = .ok seen' ∧
        splitAuthorityFrom seen' rest = .ok (later, after) := by
  cases text with
  | nil =>
    rw [splitAuthorityFrom] at h
    split at h
    · cases h
      exact .inl rfl
    · cases h
  | cons c rest =>
    by_cases hc : endsAuthority c
    · rw [splitAuthorityFrom, if_pos hc] at h
      split at h
      · cases h
        exact .inl rfl
      · cases h
    cases hn : seen.next c with
    | error e =>
      rw [splitAuthorityFrom, if_neg hc, hn] at h
      cases h
    | ok seen' =>
      rw [splitAuthorityFrom_cons hc hn] at h
      cases hs : splitAuthorityFrom seen' rest with
      | error e =>
        rw [hs] at h
        cases h
      | ok parts =>
        rw [hs] at h
        cases h
        exact .inr ⟨c, rest, seen', parts.1, rfl, rfl, hc, hn, hs⟩

theorem isReadable_of_splitAuthorityFrom
    (h : splitAuthorityFrom seen text = .ok (authority, after)) :
    ∀ c ∈ authority, isReadable c := by
  induction authority generalizing seen text with
  | nil => exact fun c hc => nomatch hc
  | cons c authority ih =>
    obtain he | ⟨d, rest, seen', later, -, he, -, hn, hs⟩ := splitAuthorityFrom_eq_ok h
    · cases he
    · cases he
      exact List.forall_mem_cons.2 ⟨isReadable_of_next hn, ih hs⟩

/-! ## The host in an authority -/

/-- What stands before the first character of a kind has no such character. -/
theorem not_mem_takeWhile_ne (q : Char) (cs : List Char) : q ∉ cs.takeWhile (· ≠ q) := fun hm =>
  of_decide_eq_true (List.all_eq_true.1 List.all_takeWhile q hm) rfl

theorem not_mem_afterUserInfo (authority : List Char) : '@' ∉ afterUserInfo authority := by
  rw [afterUserInfo, List.mem_reverse]
  exact not_mem_takeWhile_ne _ _

theorem afterUserInfo_subset (authority : List Char) : afterUserInfo authority ⊆ authority :=
  fun _ hc => List.mem_reverse.1 ((List.takeWhile_sublist _).subset (List.mem_reverse.1 hc))

/-- The characters of a host, before its letters are put in lower case. -/
def isHostChar (c : Char) : Bool :=
  isReadable c ∧ c ≠ '@'

theorem isHostChar_of_mem_hostOf (h : ∀ c ∈ authority, isReadable c) :
    ∀ c ∈ hostOf authority, isHostChar c := by
  have inside : ∀ c ∈ afterUserInfo authority, isHostChar c := fun c hc =>
    decide_eq_true ⟨h c (afterUserInfo_subset authority hc),
      fun he => not_mem_afterUserInfo authority (he ▸ hc)⟩
  intro c hc
  unfold hostOf at hc
  split at hc
  · rename_i rest he
    rw [he] at inside
    simp only [List.cons_append, List.mem_cons, List.mem_append, List.not_mem_nil, or_false] at hc
    rcases hc with rfl | hc | rfl
    · decide
    · exact inside c (List.mem_cons_of_mem _ ((List.takeWhile_sublist _).subset hc))
    · decide
  · exact inside c ((List.takeWhile_sublist _).subset hc)

theorem hostOf_bracketed (h : ':' ∈ hostOf authority) :
    ∃ inner, hostOf authority = '[' :: inner ++ [']'] ∧ ']' ∉ inner := by
  unfold hostOf at h ⊢
  split at h
  · exact ⟨_, rfl, not_mem_takeWhile_ne _ _⟩
  · exact absurd h (not_mem_takeWhile_ne _ _)

/-! ## In lower case -/

/-- A host: no blank, control character or upper-case letter, nothing that begins another part of a
URL, and colons only in brackets around the whole. -/
structure IsHost (host : List Char) : Prop where
  ne_nil : host ≠ []
  visible : ∀ c ∈ host, ' ' < c ∧ c < '\x7f'
  no_upper : ∀ c ∈ host, ¬ ('A' ≤ c ∧ c ≤ 'Z')
  no_mark : ∀ c ∈ host, c ∉ ['@', '/', '?', '#']
  bracketed : ':' ∈ host → ∃ inner, host = '[' :: inner ++ [']'] ∧ ']' ∉ inner

theorem visible_toLower (h : isHostChar c) : ' ' < c.toLower ∧ c.toLower < '\x7f' :=
  of_isReadable (P := fun c => ' ' < c.toLower ∧ c.toLower < '\x7f') (by decide)
    (of_decide_eq_true h).1

theorem not_upper_toLower (h : isHostChar c) : ¬ ('A' ≤ c.toLower ∧ c.toLower ≤ 'Z') :=
  of_isReadable (P := fun c => ¬ ('A' ≤ c.toLower ∧ c.toLower ≤ 'Z')) (by decide)
    (of_decide_eq_true h).1

theorem no_mark_toLower (h : isHostChar c) : c.toLower ∉ ['@', '/', '?', '#'] :=
  of_isReadable (P := fun c => c ≠ '@' → c.toLower ∉ ['@', '/', '?', '#']) (by decide)
    (of_decide_eq_true h).1 (of_decide_eq_true h).2

theorem eq_of_toLower_eq (h : isHostChar c) :
    (c.toLower = ':' → c = ':') ∧ (c.toLower = ']' → c = ']') :=
  of_isReadable (P := fun c => (c.toLower = ':' → c = ':') ∧ (c.toLower = ']' → c = ']'))
    (by decide) (of_decide_eq_true h).1

theorem isHost_map_toLower (hr : ∀ c ∈ authority, isReadable c) (hn : hostOf authority ≠ []) :
    IsHost ((hostOf authority).map Char.toLower) := by
  have chars := isHostChar_of_mem_hostOf hr
  refine ⟨by simpa using hn, ?_, ?_, ?_, ?_⟩
  · exact List.forall_mem_map.2 fun c hc => visible_toLower (chars c hc)
  · exact List.forall_mem_map.2 fun c hc => not_upper_toLower (chars c hc)
  · exact List.forall_mem_map.2 fun c hc => no_mark_toLower (chars c hc)
  · intro colon
    obtain ⟨c, hc, lower⟩ := List.mem_map.1 colon
    obtain rfl := (eq_of_toLower_eq (chars c hc)).1 lower
    obtain ⟨inner, shape, closed⟩ := hostOf_bracketed hc
    refine ⟨inner.map Char.toLower, by rw [shape, List.map_append]; rfl, fun closing => ?_⟩
    obtain ⟨d, hd, lower⟩ := List.mem_map.1 closing
    have inside : d ∈ hostOf authority := by
      rw [shape]
      exact List.mem_append_left _ (List.mem_cons_of_mem _ hd)
    obtain rfl := (eq_of_toLower_eq (chars d inside)).2 lower
    exact closed hd

/-! ## The host of a URL -/

/-- The host of a text that is an authority and nothing else. -/
def hostOfWhole (text : List Char) (fault : Fault) : Except Fault (List Char) :=
  (splitAuthority text).bind fun parts =>
    if parts.2 = [] then .ok (hostOf parts.1) else .error fault

theorem hostOfAbsolute_absent (hs : scheme text = .ok .absent) :
    hostOfAbsolute text = hostOfWhole text .invalidFormat := by
  rw [hostOfAbsolute, hs, hostOfWhole]
  simp only [bind, Except.bind, pure, Except.pure, throw, throwThe, MonadExceptOf.throw]
  cases splitAuthority text with
  | error e => rfl
  | ok parts => by_cases h : parts.2 = [] <;> simp [h]

theorem hostChars_singleton (h : c ∉ ['/', '*']) :
    hostChars [c] = hostOfWhole [c] .invalidChar := by
  simp only [List.mem_cons, List.not_mem_nil, or_false, not_or] at h
  rw [hostChars.eq_4 c h.1 h.2, hostOfWhole]
  simp only [bind, Except.bind, pure, Except.pure, throw, throwThe, MonadExceptOf.throw]
  cases splitAuthority [c] with
  | error e => rfl
  | ok parts => by_cases h : parts.2 = [] <;> simp [h]

theorem hostChars_slash {rest : List Char} :
    hostChars ('/' :: c :: rest) =
      if isPathAndQuery ('/' :: c :: rest) then .ok [] else .error .invalidChar :=
  rfl

theorem hostChars_cons {d : Char} {rest : List Char} (h : c ≠ '/') :
    hostChars (c :: d :: rest) = hostOfAbsolute (c :: d :: rest) := by
  have first : ∀ tail, c :: d :: rest = '/' :: tail → False := fun _ he =>
    h (List.cons.inj he).1
  exact hostChars.eq_6 _ (by simp) (by simp) (by simp) (by simp) first

theorem hostOfAbsolute_before {rest : List Char} (hs : scheme text = .ok (.before rest))
    (hr : rest ≠ []) :
    hostOfAbsolute text = (splitAuthority rest).bind fun parts =>
      if parts.1 = [] then .error .invalidFormat
      else if isPathAndQuery parts.2 then .ok (hostOf parts.1) else .error .invalidChar := by
  rw [hostOfAbsolute, hs]
  simp only [bind, Except.bind, pure, Except.pure, throw, throwThe, MonadExceptOf.throw]
  cases rest with
  | nil => exact absurd rfl hr
  | cons c rest =>
    cases splitAuthority (c :: rest) with
    | error e => rfl
    | ok parts =>
      by_cases h : parts.1 = [] <;> by_cases hp : isPathAndQuery parts.2 <;> simp [h, hp]

/-- A host is found only after an authority. -/
theorem exists_of_bind {f : List Char × List Char → Except Fault (List Char)} {rest : List Char}
    (h : (splitAuthority rest).bind f = .ok host) :
    ∃ parts, splitAuthority rest = .ok parts ∧ f parts = .ok host := by
  cases hs : splitAuthority rest with
  | error e =>
    rw [hs] at h
    cases h
  | ok parts =>
    rw [hs] at h
    exact ⟨parts, rfl, h⟩

/-- The host is the one of an authority, wherever that begins. -/
def IsFound (host : List Char) : Prop :=
  ∃ rest parts, splitAuthority rest = .ok parts ∧ host = hostOf parts.1

theorem isFound_of_hostOfWhole {fault : Fault} (h : hostOfWhole text fault = .ok host) :
    IsFound host := by
  obtain ⟨parts, split, h⟩ := exists_of_bind h
  split at h
  · cases h
    exact ⟨_, parts, split, rfl⟩
  · cases h

theorem isFound_of_hostOfAbsolute (h : hostOfAbsolute text = .ok host) : IsFound host := by
  cases hs : scheme text with
  | error e =>
    rw [hostOfAbsolute, hs] at h
    cases h
  | ok begun =>
    cases begun with
    | absent =>
      rw [hostOfAbsolute_absent hs] at h
      exact isFound_of_hostOfWhole h
    | before rest =>
      by_cases hr : rest = []
      · rw [hostOfAbsolute, hs, hr] at h
        cases h
      rw [hostOfAbsolute_before hs hr] at h
      obtain ⟨parts, split, h⟩ := exists_of_bind h
      split at h
      · cases h
      split at h
      · cases h
        exact ⟨_, parts, split, rfl⟩
      · cases h

theorem isFound_of_hostChars (h : hostChars text = .ok host) (hn : host ≠ []) : IsFound host := by
  cases text with
  | nil => cases h
  | cons c rest =>
    cases rest with
    | nil =>
      by_cases hc : c ∈ ['/', '*']
      · -- the text is a path or stands for no host
        obtain rfl | rfl := List.mem_pair.1 hc
        · cases h
          exact absurd rfl hn
        · cases h
          exact absurd rfl hn
      · rw [hostChars_singleton hc] at h
        exact isFound_of_hostOfWhole h
    | cons d rest =>
      by_cases hc : c = '/'
      · subst hc
        rw [hostChars_slash] at h
        split at h
        · cases h
          exact absurd rfl hn
        · cases h
      · rw [hostChars_cons hc] at h
        exact isFound_of_hostOfAbsolute h

theorem host?_eq (url : String) : host? url =
    if maxLength < url.utf8ByteSize then .error .tooLong
    else (hostChars url.toList).map fun host =>
      if host = [] then none else some (String.ofList (host.map Char.toLower)) := by
  rw [host?]
  simp only [bind, Except.bind, pure, Except.pure, throw, throwThe, MonadExceptOf.throw]
  split
  · rfl
  · rcases hostChars url.toList with e | _ | ⟨c, host⟩
    · rfl
    · rfl
    · rfl

theorem isHost_of_host? {url host : String} (h : host? url = .ok (some host)) :
    IsHost host.toList := by
  rw [host?_eq] at h
  split at h
  · cases h
  · cases hc : hostChars url.toList with
    | error e =>
      rw [hc] at h
      cases h
    | ok found =>
      rw [hc] at h
      simp only [Except.map] at h
      split at h
      · cases h
      · rename_i hn
        cases h
        obtain ⟨rest, parts, split, rfl⟩ := isFound_of_hostChars hc hn
        rw [String.toList_ofList]
        exact isHost_map_toLower (isReadable_of_splitAuthorityFrom split) hn

end RequestAuth.ServiceUrl
