import RequestAuth.Proofs.Date.HttpDate
import RequestAuth.Proofs.ServiceUrl.Parts
import RequestAuth.Settings
import RequestAuth.Signing

/-!
# The host that a service URL names

A URL that is made of the usual parts gives its host and nothing else, and no text whatever gives a
host that could break the text that is signed: that has its three lines for every date
(`Settings.serviceHost_of_url`).
-/

namespace RequestAuth

namespace Signing

/-! ## Lines -/

/-- The lines of the text that is signed. -/
def contentLines (host date : String) : List (List Char) :=
  [(targetName ++ ": post /" ++ path).toList, ("host: " ++ host).toList, ("date: " ++ date).toList]

theorem toList_content (host date : String) :
    (content host date).toList = ['\n'].intercalate (contentLines host date) := by
  simp only [content, contentLines, String.toList_append, List.intercalate, List.intersperse,
    List.flatten_cons, List.flatten_nil, List.append_assoc, List.append_nil]
  rfl

theorem splitOn_content {host date : String} (hh : '\n' ∉ host.toList) (hd : '\n' ∉ date.toList) :
    (content host date).toList.splitOn '\n' = contentLines host date := by
  rw [toList_content]
  refine List.splitOn_intercalate '\n' (fun line hl => ?_) (List.cons_ne_nil _ _)
  simp only [contentLines, List.mem_cons, List.not_mem_nil, or_false] at hl
  rcases hl with rfl | rfl | rfl
  · decide
  · rw [String.toList_append, List.mem_append, not_or]
    exact ⟨by decide, hh⟩
  · rw [String.toList_append, List.mem_append, not_or]
    exact ⟨by decide, hd⟩

theorem splitOn_content_of_isHost {host : String} (h : ServiceUrl.IsHost host.toList)
    (t : DateTime) : (content host (HttpDate.render t)).toList.splitOn '\n' =
      contentLines host (HttpDate.render t) :=
  splitOn_content (fun hm => absurd (h.visible _ hm).1 (by decide))
    fun hm => absurd (HttpDate.printable_render t _ hm).1 (by decide)

end Signing

/-! ## Settings -/

namespace Settings

open ServiceUrl (Parts IsWritten hostAndPort IsHost maxLength)

variable {settings settings' : Settings} {url host : String}

theorem withServiceUrl_of_host? (h : ServiceUrl.host? url = .ok (some host)) :
    settings.withServiceUrl url = .ok { settings with serviceHost := some host } := by
  rw [withServiceUrl, h]

theorem withServiceUrl_eq_ok (h : settings.withServiceUrl url = .ok settings') :
    ∃ host, ServiceUrl.host? url = .ok (some host) ∧
      settings' = { settings with serviceHost := some host } := by
  unfold withServiceUrl at h
  split at h
  · cases h
  · cases h
  · rename_i host hu
    cases h
    exact ⟨host, hu, rfl⟩

theorem validate_of_isHost (h : IsHost host.toList) :
    ({ settings with serviceHost := some host } : Settings).validate =
      if lifetimeLimit < settings.maxLifetime then
        .error (.longLifetime settings.maxLifetime lifetimeLimit) else .ok () := by
  have full : ¬ some host = some "" := fun he => h.ne_nil (by rw [Option.some.inj he]; rfl)
  simp only [validate, if_neg full]

/-- A URL made of parts, or an authority alone, gives its host, and whatever gives a host gives one
that can be signed for. -/
theorem serviceHost_of_url (settings : Settings) :
    (∀ parts : Parts, parts.IsUsual → (String.ofList parts.chars).utf8ByteSize ≤ maxLength →
      settings.withServiceUrl (String.ofList parts.chars) =
        .ok { settings with serviceHost := some (String.ofList (parts.host.map Char.toLower)) }) ∧
    (∀ host port, IsWritten host → (∀ digits ∈ port, ∀ c ∈ digits, c.isDigit) →
      (String.ofList (hostAndPort host port)).utf8ByteSize ≤ maxLength →
        settings.withServiceUrl (String.ofList (hostAndPort host port)) =
          .ok { settings with serviceHost := some (String.ofList (host.map Char.toLower)) }) ∧
    ∀ url settings', settings.withServiceUrl url = .ok settings' →
      ∃ host, settings' = { settings with serviceHost := some host } ∧ IsHost host.toList ∧
        settings'.validate = (if lifetimeLimit < settings.maxLifetime then
          .error (.longLifetime settings.maxLifetime lifetimeLimit) else .ok ()) ∧
        ∀ t, (Signing.content host (HttpDate.render t)).toList.splitOn '\n' =
          Signing.contentLines host (HttpDate.render t) := by
  refine ⟨fun parts usual short => ?_, fun host port written digits short => ?_,
    fun url settings' h => ?_⟩
  · exact withServiceUrl_of_host? (ServiceUrl.host?_chars usual short)
  · exact withServiceUrl_of_host? (ServiceUrl.host?_hostAndPort written digits short)
  · obtain ⟨host, found, rfl⟩ := withServiceUrl_eq_ok h
    have isHost := ServiceUrl.isHost_of_host? found
    exact ⟨host, rfl, isHost, validate_of_isHost isHost, Signing.splitOn_content_of_isHost isHost⟩

/-! ## A URL with all parts -/

/-- An address in brackets, after user information with a colon. -/
def sampleParts : Parts where
  scheme := "hTTps".toList
  userInfo := some "name:word".toList
  host := "[FE80::1:2.3.4.5]".toList
  port := some "8443".toList
  path := "/V0/data".toList
  query := some "a=b&c".toList

theorem isUsual_sampleParts : sampleParts.IsUsual where
  scheme := by decide
  userInfo := by
    rintro info ⟨⟩
    exact ⟨Text.forall_of_all (by decide), by decide⟩
  host :=
    have inner : ServiceUrl.IsInner "FE80::1:2.3.4.5".toList :=
      ⟨Text.forall_of_all (by decide), by decide⟩
    .literal inner
  port := by
    rintro digits ⟨⟩
    exact Text.forall_of_all (by decide)
  slash := by
    rintro c ⟨⟩
    rfl
  path := Text.forall_of_all (by decide)
  query := by
    rintro query ⟨⟩
    exact Text.forall_of_all (by decide)

theorem serviceHost_of_sampleParts :
    default.withServiceUrl "hTTps://name:word@[FE80::1:2.3.4.5]:8443/V0/data?a=b&c" =
      .ok { default with serviceHost := some "[fe80::1:2.3.4.5]" } ∧
    default.withServiceUrl "LocalHost:8080" = .ok { default with serviceHost := some "localhost" } ∧
    -- the brackets reach across the end of the user information
    default.withServiceUrl "http://[x@A]:1/" = .ok { default with serviceHost := some "a]" } ∧
    ∀ t, (Signing.content "a]" (HttpDate.render t)).toList.splitOn '\n' =
      Signing.contentLines "a]" (HttpDate.render t) := by
  have third : default.withServiceUrl "http://[x@A]:1/" =
    .ok { default with serviceHost := some "a]" } := by decide
  refine ⟨?_, ?_, third, ?_⟩
  · exact (serviceHost_of_url default).1 sampleParts isUsual_sampleParts (by decide)
  · exact (serviceHost_of_url default).2.1 "LocalHost".toList (some "8080".toList)
      (.name (by decide) (Text.forall_of_all (by decide)))
      (by rintro digits ⟨⟩; exact Text.forall_of_all (by decide)) (by decide)
  · obtain ⟨host, same, -, -, lines⟩ := (serviceHost_of_url default).2.2 _ _ third
    obtain rfl : "a]" = host := Option.some.inj (congrArg serviceHost same)
    exact lines

end Settings

end RequestAuth
