import Mathlib.Data.List.TakeWhile
import RequestAuth.Proofs.ServiceUrl.Host
import RequestAuth.Proofs.Text.Part

/-!
# The parts of a service URL

A URL with a usual scheme is written from its parts, of which all but the scheme and the host may be
left out (`ServiceUrl.Parts`). Whatever they are, the host is found again, in lower case
(`ServiceUrl.host?_chars`), and so it is in an authority alone (`ServiceUrl.host?_hostAndPort`).
-/

namespace RequestAuth.ServiceUrl

/-! ## What is written -/

/-- The characters of a host name. -/
def isNameChar (c : Char) : Bool :=
  isAlphanumeric c ∨ c = '.' ∨ c = '-'

/-- User information or what stands in the brackets of a host. An IPv6 address has at most eight
groups of digits, and so at most eight colons. -/
structure IsInner (inner : List Char) : Prop where
  chars : ∀ c ∈ inner, isAuthorityChar c ∨ c = ':' ∨ c = '%'
  colons : inner.count ':' ≤ maxColons

/-- A host as it is written: a name, or an address in brackets. -/
inductive IsWritten : List Char → Prop
  | name {name : List Char} (h : name ≠ []) (hc : ∀ c ∈ name, isNameChar c) : IsWritten name
  | literal {inner : List Char} (h : IsInner inner) : IsWritten ('[' :: inner ++ [']'])

/-- A host, and a port after a colon. -/
def hostAndPort (host : List Char) (port : Option (List Char)) : List Char :=
  host ++ port.elim [] (':' :: ·)

/-- The parts of a URL. -/
structure Parts where
  /-- The scheme, in any case. -/
  scheme : List Char
  /-- What stands before the `@`. -/
  userInfo : Option (List Char)
  /-- The host. -/
  host : List Char
  /-- The digits of the port. -/
  port : Option (List Char)
  /-- The path, which may be empty. -/
  path : List Char
  /-- What stands after the question mark. -/
  query : Option (List Char)

namespace Parts

/-- What stands between the scheme and the path. -/
def authority (parts : Parts) : List Char :=
  parts.userInfo.elim [] (· ++ ['@']) ++ hostAndPort parts.host parts.port

/-- The path and the query. -/
def target (parts : Parts) : List Char :=
  parts.path ++ parts.query.elim [] ('?' :: ·)

/-- The URL that is made of the parts. -/
def chars (parts : Parts) : List Char :=
  parts.scheme ++ "://".toList ++ (parts.authority ++ parts.target)

/-- Each part has the form that it usually has. -/
structure IsUsual (parts : Parts) : Prop where
  scheme : parts.scheme.map Char.toLower ∈ ["http".toList, "https".toList]
  userInfo : ∀ info ∈ parts.userInfo, IsInner info
  host : IsWritten parts.host
  port : ∀ digits ∈ parts.port, ∀ c ∈ digits, c.isDigit
  slash : ∀ c ∈ parts.path.head?, c = '/'
  path : ∀ c ∈ parts.path, isPathChar c
  query : ∀ query ∈ parts.query, ∀ c ∈ query, isQueryChar c

end Parts

/-! ## Reading an authority -/

/-- Reading the characters of a part of an authority leads from one state to another. -/
inductive Reads : Seen → List Char → Seen → Prop
  | nil {seen : Seen} : Reads seen [] seen
  | cons {seen seen' seen'' : Seen} {c : Char} {part : List Char} (hc : ¬ endsAuthority c)
    (hn : seen.next c = .ok seen') (h : Reads seen' part seen'') : Reads seen (c :: part) seen''

variable {c : Char} {seen seen' seen'' : Seen} {part part' after host inner text : List Char}
  {port : Option (List Char)}

namespace Reads

theorem append (h : Reads seen part seen') (h' : Reads seen' part' seen'') :
    Reads seen (part ++ part') seen'' := by
  induction h with
  | nil => exact h'
  | cons hc hn _ ih => exact .cons hc hn (ih h')

theorem single (hc : ¬ endsAuthority c) (hn : seen.next c = .ok seen') : Reads seen [c] seen' :=
  .cons hc hn .nil

theorem splitAuthorityFrom_append (h : Reads seen part seen') :
    splitAuthorityFrom seen (part ++ text) =
      (splitAuthorityFrom seen' text).map fun parts => (part ++ parts.1, parts.2) := by
  induction h with
  | @nil seen =>
    rw [List.nil_append]
    cases splitAuthorityFrom seen text with
    | error e => rfl
    | ok parts => rfl
  | @cons seen seen' seen'' c part hc hn _ ih =>
    rw [List.cons_append, splitAuthorityFrom_cons hc hn, ih]
    cases splitAuthorityFrom seen'' text with
    | error e => rfl
    | ok parts => rfl

end Reads

theorem next_of_isAuthorityChar (seen : Seen) (h : isAuthorityChar c) :
    seen.next c = .ok { seen with atSign := false } := by
  have ne (d : Char) (hd : isAuthorityChar d = false) : c ≠ d := by
    rintro rfl
    rw [h] at hd
    cases hd
  simp only [Seen.next, if_neg (ne ':' (by decide)), if_neg (ne '[' (by decide)),
    if_neg (ne ']' (by decide)), if_neg (ne '@' (by decide)), if_neg (ne '%' (by decide)), if_pos h]

theorem not_endsAuthority_of_isReadable (h : isReadable c) : ¬ endsAuthority c :=
  of_isReadable (P := fun c => ¬ endsAuthority c) (by decide) h

theorem isReadable_of_isAuthorityChar (h : isAuthorityChar c) : isReadable c :=
  decide_eq_true (.inl h)

theorem reads_plain (hc : ∀ c ∈ part, isAuthorityChar c) (hs : seen.atSign = false) :
    Reads seen part seen := by
  induction part with
  | nil => exact .nil
  | cons c part ih =>
    obtain ⟨hc, hp⟩ := List.forall_mem_cons.1 hc
    have same : { seen with atSign := false } = seen := by rw [← hs]
    have next := next_of_isAuthorityChar seen hc
    rw [same] at next
    exact .cons (not_endsAuthority_of_isReadable (isReadable_of_isAuthorityChar hc)) next (ih hp)

/-- User information and what stands in brackets leave no more than colons and a percent sign. -/
theorem exists_reads_inner (seen : Seen) (hc : ∀ c ∈ inner, isAuthorityChar c ∨ c = ':' ∨ c = '%')
    (hn : seen.colons + inner.count ':' ≤ maxColons) :
    ∃ seen', Reads seen inner seen' ∧ seen'.opened = seen.opened ∧ seen'.closed = seen.closed := by
  induction inner generalizing seen with
  | nil => exact ⟨seen, .nil, rfl, rfl⟩
  | cons c inner ih =>
    obtain ⟨hc, hi⟩ := List.forall_mem_cons.1 hc
    rw [List.count_cons] at hn
    obtain plain | rfl | rfl := hc
    · obtain ⟨seen', reads, opened, closed⟩ :=
        ih { seen with atSign := false } hi (by dsimp only; omega)
      exact ⟨seen', .cons (not_endsAuthority_of_isReadable (isReadable_of_isAuthorityChar plain))
        (next_of_isAuthorityChar _ plain) reads, opened, closed⟩
    · have room : ¬ maxColons ≤ seen.colons := by
        simp only [beq_self_eq_true, if_true] at hn
        omega
      obtain ⟨seen', reads, opened, closed⟩ :=
        ih { seen with atSign := false, colons := seen.colons + 1 } hi (by
          simp only [beq_self_eq_true, if_true] at hn
          dsimp only
          omega)
      have next : seen.next ':' = .ok { seen with atSign := false, colons := seen.colons + 1 } := by
        simp only [Seen.next, if_true, if_neg room]
      exact ⟨seen', .cons (by decide) next reads, opened, closed⟩
    · obtain ⟨seen', reads, opened, closed⟩ :=
        ih { seen with atSign := false, percent := true } hi (by dsimp only; omega)
      exact ⟨seen', .cons (by decide) rfl reads, opened, closed⟩

/-- What has been seen before a host: nothing, or user information. -/
def beforeHost (atSign : Bool) : Seen := { atSign }

/-- What has been seen after a host, which is in brackets or not. -/
def afterHost (brackets : Bool) : Seen := { opened := brackets, closed := brackets }

theorem reads_userInfo (h : IsInner inner) :
    Reads (beforeHost false) (inner ++ ['@']) (beforeHost true) := by
  obtain ⟨seen, reads, opened, closed⟩ :=
    exists_reads_inner (beforeHost false) h.chars (by simpa [beforeHost] using h.colons)
  refine reads.append (.single (by decide) ?_)
  have next : seen.next '@' =
      .ok { seen with colons := 0, percent := false, atSign := true } := rfl
  rw [next, opened, closed]
  rfl

theorem isAuthorityChar_of_isNameChar (h : isNameChar c) : isAuthorityChar c := by
  simp only [isNameChar, decide_eq_true_eq] at h
  obtain h | rfl | rfl := h
  · exact decide_eq_true (.inl h)
  · decide
  · decide

theorem isAuthorityChar_of_isDigit (h : c.isDigit) : isAuthorityChar c := by
  have digit : '0' ≤ c ∧ c ≤ '9' := by
    simp only [Char.isDigit, Bool.and_eq_true, decide_eq_true_eq] at h
    exact h
  exact decide_eq_true (.inl (decide_eq_true (.inl digit)))

theorem reads_host (h : IsWritten host) (atSign : Bool) :
    ∃ brackets, Reads (beforeHost atSign) host (afterHost brackets) := by
  cases h with
  | @name _ hn hc =>
    cases host with
    | nil => exact absurd rfl hn
    | cons c host =>
      obtain ⟨hc, hh⟩ := List.forall_mem_cons.1 hc
      have plain := isAuthorityChar_of_isNameChar hc
      refine ⟨false, .cons (not_endsAuthority_of_isReadable (isReadable_of_isAuthorityChar plain))
        (next_of_isAuthorityChar _ plain) ?_⟩
      exact reads_plain (fun c hc => isAuthorityChar_of_isNameChar (hh c hc)) rfl
  | @literal inner h =>
    obtain ⟨seen, reads, opened, closed⟩ :=
      exists_reads_inner { opened := true } h.chars (by simpa using h.colons)
    have last : seen.next ']' = .ok (afterHost true) := by
      have next : seen.next ']' = if ¬ seen.opened ∨ seen.closed then .error .invalidAuthority
        else .ok { seen with atSign := false, closed := true, colons := 0, percent := false } := rfl
      rw [next, opened, closed]
      rfl
    have first : (beforeHost atSign).next '[' = .ok { opened := true } := rfl
    exact ⟨true, .cons (by decide) first (reads.append (.single (by decide) last))⟩

theorem exists_reads_hostAndPort (h : IsWritten host)
    (hp : ∀ digits ∈ port, ∀ c ∈ digits, c.isDigit) (atSign : Bool) :
    ∃ seen, Reads (beforeHost atSign) (hostAndPort host port) seen ∧ seen.mayEnd := by
  obtain ⟨brackets, reads⟩ := reads_host h atSign
  cases port with
  | none =>
    refine ⟨_, reads.append .nil, ?_⟩
    cases brackets <;> decide
  | some digits =>
    have colon : (afterHost brackets).next ':' = .ok { afterHost brackets with colons := 1 } := rfl
    have plain : ∀ c ∈ digits, isAuthorityChar c := fun c hc =>
      isAuthorityChar_of_isDigit (hp digits rfl c hc)
    refine ⟨_, reads.append (.cons (by decide) colon (reads_plain plain rfl)), ?_⟩
    cases brackets <;> decide

theorem exists_reads_authority {parts : Parts} (h : parts.IsUsual) :
    ∃ seen, Reads {} parts.authority seen ∧ seen.mayEnd := by
  cases hu : parts.userInfo with
  | none =>
    rw [Parts.authority, hu]
    exact exists_reads_hostAndPort h.host h.port false
  | some info =>
    obtain ⟨seen, reads, ends⟩ := exists_reads_hostAndPort h.host h.port true
    rw [Parts.authority, hu]
    exact ⟨seen, (reads_userInfo (h.userInfo info hu)).append reads, ends⟩

/-- An authority ends where nothing follows, or a path or a query. -/
theorem splitAuthority_append (h : Reads {} part seen) (ends : seen.mayEnd)
    (ha : ∀ c, after.head? = some c → endsAuthority c) :
    splitAuthority (part ++ after) = .ok (part, after) := by
  rw [splitAuthority, h.splitAuthorityFrom_append, splitAuthorityFrom_end ha ends, Except.map,
    List.append_nil]

/-! ## Finding the host -/

theorem afterUserInfo_self (h : '@' ∉ text) : afterUserInfo text = text := by
  have other : ∀ c ∈ text.reverse, decide (c ≠ '@') = true := fun c hc =>
    decide_eq_true fun he => h (he ▸ List.mem_reverse.1 hc)
  rw [afterUserInfo, List.takeWhile_eq_self_iff.2 other, List.reverse_reverse]

theorem afterUserInfo_append (info : List Char) (h : '@' ∉ text) :
    afterUserInfo (info ++ ['@'] ++ text) = text := by
  have other : ∀ c ∈ text.reverse, decide (c ≠ '@') = true := fun c hc =>
    decide_eq_true fun he => h (he ▸ List.mem_reverse.1 hc)
  have turned : (info ++ ['@'] ++ text).reverse = text.reverse ++ '@' :: info.reverse := by simp
  rw [afterUserInfo, turned, List.takeWhile_append_of_pos other,
    List.takeWhile_cons_of_neg (by decide), List.append_nil, List.reverse_reverse]

/-- No character of a host or a port begins another part. -/
theorem not_mem_hostAndPort (h : IsWritten host)
    (hp : ∀ digits ∈ port, ∀ c ∈ digits, c.isDigit) {d : Char} (hd : isAuthorityChar d = false)
    (ho : d ∉ [':', '%', '[', ']']) : d ∉ hostAndPort host port := by
  simp only [List.mem_cons, List.not_mem_nil, or_false, not_or] at ho
  have plain : ∀ c, isAuthorityChar c → d ≠ c := by
    rintro c hc rfl
    rw [hd] at hc
    cases hc
  intro hm
  obtain hm | hm := List.mem_append.1 hm
  · cases h with
    | name hn hc => exact plain d (isAuthorityChar_of_isNameChar (hc d hm)) rfl
    | literal h =>
      simp only [List.cons_append, List.mem_cons, List.mem_append, List.not_mem_nil, or_false] at hm
      rcases hm with rfl | hm | rfl
      · exact ho.2.2.1 rfl
      · obtain hc | rfl | rfl := h.chars d hm
        · exact plain d hc rfl
        · exact ho.1 rfl
        · exact ho.2.1 rfl
      · exact ho.2.2.2 rfl
  · cases port with
    | none => cases hm
    | some digits =>
      obtain rfl | hm := List.mem_cons.1 hm
      · exact ho.1 rfl
      · exact plain d (isAuthorityChar_of_isDigit (hp digits rfl d hm)) rfl

/-- What stands before the first character of a kind, if there is one. -/
theorem takeWhile_ne_append {q : Char} (h : q ∉ part) (ht : ∀ c ∈ text.head?, c = q) :
    (part ++ text).takeWhile (· ≠ q) = part := by
  have other : ∀ c ∈ part, decide (c ≠ q) = true := fun c hc =>
    decide_eq_true fun he => h (he ▸ hc)
  rw [List.takeWhile_append_of_pos other]
  cases text with
  | nil => exact List.append_nil part
  | cons c text =>
    obtain rfl := ht c rfl
    rw [List.takeWhile_cons_of_neg (by simp), List.append_nil]

theorem hostOf_hostAndPort (h : IsWritten host) (ha : afterUserInfo text = hostAndPort host port) :
    hostOf text = host := by
  unfold hostOf
  rw [ha]
  cases h with
  | name hn hc =>
    have no_colon : ':' ∉ host := fun hm => absurd (hc ':' hm) (by decide)
    have rest : ∀ c ∈ (port.elim [] (':' :: ·)).head?, c = ':' := by
      cases port with
      | none => exact fun c hc => nomatch hc
      | some digits => exact fun c hc => (Option.some.inj hc).symm
    split
    · rename_i rest he
      cases host with
      | nil => exact absurd rfl hn
      | cons c host =>
        obtain ⟨rfl, -⟩ := List.cons.inj he
        exact absurd (hc '[' List.mem_cons_self) (by decide)
    · exact takeWhile_ne_append no_colon rest
  | @literal inner h =>
    have no_bracket : ']' ∉ inner := fun hm => by
      obtain hc | hc | hc := h.chars ']' hm
      · exact absurd hc (by decide)
      · exact absurd hc (by decide)
      · exact absurd hc (by decide)
    have shape : hostAndPort ('[' :: inner ++ [']']) port =
        '[' :: (inner ++ ']' :: port.elim [] (':' :: ·)) := by simp [hostAndPort]
    rw [shape]
    have inside : (inner ++ ']' :: port.elim [] (':' :: ·)).takeWhile (· ≠ ']') = inner :=
      takeWhile_ne_append no_bracket fun c hc => (Option.some.inj hc).symm
    change '[' :: List.takeWhile (· ≠ ']') _ ++ [']'] = _
    rw [inside]

theorem hostOf_authority {parts : Parts} (h : parts.IsUsual) :
    hostOf parts.authority = parts.host := by
  have no_sign := not_mem_hostAndPort h.host h.port (d := '@') (by decide) (by decide)
  have found : afterUserInfo parts.authority = hostAndPort parts.host parts.port := by
    rw [Parts.authority]
    cases parts.userInfo with
    | none => exact afterUserInfo_self no_sign
    | some info => exact afterUserInfo_append info no_sign
  exact hostOf_hostAndPort h.host found

/-! ## Path and query -/

theorem isQuery_of_isQueryChar (h : ∀ c ∈ text, isQueryChar c) : isQuery text := by
  fun_induction isQuery text with
  | case1 => rfl
  | case2 => rfl
  | case3 c text _ ih =>
    obtain ⟨hc, ht⟩ := List.forall_mem_cons.1 h
    rw [hc, ih ht]
    rfl

theorem isPathAndQuery_append (h : ∀ c ∈ part, isPathChar c) :
    isPathAndQuery (part ++ text) = isPathAndQuery text := by
  induction part with
  | nil => rfl
  | cons c part ih =>
    obtain ⟨hc, hp⟩ := List.forall_mem_cons.1 h
    have fragment : c ≠ '#' := by
      rintro rfl
      exact absurd hc (by decide)
    have mark : c ≠ '?' := by
      rintro rfl
      exact absurd hc (by decide)
    rw [List.cons_append, isPathAndQuery.eq_4 c _ fragment mark, hc, ih hp]
    rfl

theorem isPathAndQuery_target {parts : Parts} (h : parts.IsUsual) :
    isPathAndQuery parts.target := by
  rw [Parts.target, isPathAndQuery_append h.path]
  cases hq : parts.query with
  | none => rfl
  | some query => exact isQuery_of_isQueryChar (h.query query hq)

theorem endsAuthority_target {parts : Parts} (h : parts.IsUsual) :
    ∀ c, parts.target.head? = some c → endsAuthority c := by
  intro c hc
  have slash := h.slash
  rw [Parts.target] at hc
  cases hp : parts.path with
  | cons d path =>
    rw [hp] at hc slash
    obtain rfl := Option.some.inj hc
    obtain rfl := slash d rfl
    decide
  | nil =>
    rw [hp] at hc
    cases hq : parts.query with
    | none =>
      rw [hq] at hc
      cases hc
    | some query =>
      rw [hq] at hc
      obtain rfl := Option.some.inj hc
      decide

/-! ## Scheme -/

/-- A usual scheme is found in any case. -/
theorem scheme_append (h : part.map Char.toLower ∈ ["http".toList, "https".toList]) :
    scheme (part ++ "://".toList ++ text) = .ok (.before text) := by
  rw [List.append_assoc]
  obtain http | https := List.mem_pair.1 h
  · have found : Text.afterAnyCase? "http://".toList (part ++ ("://".toList ++ text)) = some text :=
      Text.afterAnyCase?_append "http".toList "://".toList http
    rw [scheme, found]
  · have longer : part.map Char.toLower = "http".toList ++ ['s'] := https
    obtain ⟨start, last, rfl, hs, hl⟩ := List.map_eq_append_iff.1 longer
    obtain ⟨c, rest, rfl, hc, -⟩ := List.map_eq_cons_iff.1 hl
    -- the letter after the shorter scheme stands in the place of its colon
    have other : ¬ c.toLower = ':'.toLower := by
      rw [hc]
      decide
    have first : Text.afterAnyCase? "http://".toList
        (start ++ c :: rest ++ ("://".toList ++ text)) = none := by
      have begun : Text.afterAnyCase? ("http".toList ++ "://".toList)
            (start ++ (c :: rest ++ ("://".toList ++ text))) =
          Text.afterAnyCase? "://".toList (c :: rest ++ ("://".toList ++ text)) :=
        Text.afterAnyCase?_append _ _ hs
      rw [List.append_assoc]
      exact begun.trans (if_neg other)
    have second : Text.afterAnyCase? "https://".toList
        (start ++ c :: rest ++ ("://".toList ++ text)) = some text :=
      Text.afterAnyCase?_append "https".toList "://".toList https
    rw [scheme, first, second]

theorem schemeFrom_eq_absent {length : Nat} (h : '/' ∉ text) :
    schemeFrom length text = .ok .absent := by
  fun_induction schemeFrom length text with
  | case1 => simp at h
  | case2 => simp at h
  | case3 length c text _ _ ih => exact ih fun hm => h (List.mem_cons_of_mem c hm)
  | case4 => rfl
  | case5 => rfl

/-- An authority alone has no scheme. -/
theorem scheme_of_whole (h : splitAuthority text = .ok (text, [])) : scheme text = .ok .absent := by
  have readable := isReadable_of_splitAuthorityFrom h
  have no_slash : ∀ c ∈ text, c.toLower ≠ '/'.toLower := fun c hc =>
    of_isReadable (P := fun c => c.toLower ≠ '/'.toLower) (by decide) (readable c hc)
  rw [scheme, Text.afterAnyCase?_eq_none (e := '/') (by decide) no_slash,
    Text.afterAnyCase?_eq_none (e := '/') (by decide) no_slash]
  dsimp only
  split
  · rfl
  · exact schemeFrom_eq_absent fun hm => no_slash '/' hm rfl

theorem exists_eq_cons_of_scheme (h : part.map Char.toLower ∈ ["http".toList, "https".toList]) :
    ∃ c d rest, part = c :: d :: rest ∧ c ≠ '/' := by
  have start : ∃ later, part.map Char.toLower = 'h' :: 't' :: later := by
    obtain http | https := List.mem_pair.1 h
    · exact ⟨_, http⟩
    · exact ⟨_, https⟩
  obtain ⟨later, start⟩ := start
  obtain ⟨c, rest, rfl, hc, hr⟩ := List.map_eq_cons_iff.1 start
  obtain ⟨d, rest, rfl, -, -⟩ := List.map_eq_cons_iff.1 hr
  refine ⟨c, d, rest, rfl, ?_⟩
  rintro rfl
  exact absurd hc (by decide)

/-! ## The host is found again -/

theorem IsWritten.exists_cons (h : IsWritten host) : ∃ c rest, host = c :: rest ∧ c ≠ '*' := by
  cases h with
  | name hn hc =>
    cases host with
    | nil => exact absurd rfl hn
    | cons c host =>
      refine ⟨c, host, rfl, ?_⟩
      rintro rfl
      exact absurd (hc '*' List.mem_cons_self) (by decide)
  | @literal inner h => exact ⟨'[', inner ++ [']'], rfl, by decide⟩

theorem IsWritten.ne_nil (h : IsWritten host) : host ≠ [] := by
  obtain ⟨c, rest, rfl, -⟩ := h.exists_cons
  exact List.cons_ne_nil c rest

theorem hostChars_chars {parts : Parts} (h : parts.IsUsual) :
    hostChars parts.chars = .ok parts.host := by
  obtain ⟨c, d, rest, shape, hc⟩ := exists_eq_cons_of_scheme h.scheme
  obtain ⟨seen, reads, ends⟩ := exists_reads_authority h
  have split := splitAuthority_append reads ends (endsAuthority_target h)
  have full : parts.authority ≠ [] := by
    simp [Parts.authority, hostAndPort, h.host.ne_nil]
  have absolute : hostChars parts.chars = hostOfAbsolute parts.chars := by
    rw [Parts.chars, shape]
    exact hostChars_cons hc
  rw [absolute, Parts.chars, hostOfAbsolute_before (scheme_append h.scheme) (by simp [full]), split]
  simp only [Except.bind, if_neg full, if_pos (isPathAndQuery_target h), hostOf_authority h]

theorem hostChars_hostAndPort (h : IsWritten host) (hp : ∀ digits ∈ port, ∀ c ∈ digits, c.isDigit) :
    hostChars (hostAndPort host port) = .ok host := by
  obtain ⟨seen, reads, ends⟩ := exists_reads_hostAndPort h hp false
  have split : splitAuthority (hostAndPort host port ++ []) = .ok (hostAndPort host port, []) :=
    splitAuthority_append reads ends fun c hc => nomatch hc
  rw [List.append_nil] at split
  have no_slash : '/' ∉ hostAndPort host port := not_mem_hostAndPort h hp (by decide) (by decide)
  have no_sign : '@' ∉ hostAndPort host port := not_mem_hostAndPort h hp (by decide) (by decide)
  have whole (fault : Fault) : hostOfWhole (hostAndPort host port) fault = .ok host := by
    rw [hostOfWhole, split]
    exact congrArg Except.ok (hostOf_hostAndPort h (afterUserInfo_self no_sign))
  have absent := scheme_of_whole split
  obtain ⟨c, rest, hh, hc⟩ := h.exists_cons
  have shape : hostAndPort host port = c :: (rest ++ port.elim [] (':' :: ·)) := by
    rw [hostAndPort, hh, List.cons_append]
  generalize rest ++ port.elim [] (':' :: ·) = later at shape
  rw [shape] at no_slash whole absent ⊢
  have slash : c ≠ '/' := fun he => no_slash (he ▸ List.mem_cons_self)
  cases later with
  | nil => rw [hostChars_singleton (by simp [slash, hc]), whole]
  | cons d later => rw [hostChars_cons slash, hostOfAbsolute_absent absent, whole]

theorem host?_of_hostChars (h : IsWritten host) (hc : hostChars text = .ok host)
    (hl : (String.ofList text).utf8ByteSize ≤ maxLength) :
    host? (String.ofList text) = .ok (some (String.ofList (host.map Char.toLower))) := by
  rw [host?_eq, if_neg (Nat.not_lt.2 hl), String.toList_ofList, hc, Except.map, if_neg h.ne_nil]

/-- The host of a URL that is made of parts. -/
theorem host?_chars {parts : Parts} (h : parts.IsUsual)
    (hl : (String.ofList parts.chars).utf8ByteSize ≤ maxLength) :
    host? (String.ofList parts.chars) =
      .ok (some (String.ofList (parts.host.map Char.toLower))) :=
  host?_of_hostChars h.host (hostChars_chars h) hl

/-- The host of an authority alone. -/
theorem host?_hostAndPort (h : IsWritten host) (hp : ∀ digits ∈ port, ∀ c ∈ digits, c.isDigit)
    (hl : (String.ofList (hostAndPort host port)).utf8ByteSize ≤ maxLength) :
    host? (String.ofList (hostAndPort host port)) =
      .ok (some (String.ofList (host.map Char.toLower))) :=
  host?_of_hostChars h (hostChars_hostAndPort h hp) hl

end RequestAuth.ServiceUrl
