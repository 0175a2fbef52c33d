import CurlScribe.Proofs.Encoding.Form
import CurlScribe.Proofs.Request.Authority
import CurlScribe.Proofs.Request.Query

/-!
# The credentials of a URL

The user information of a URL is a user name and a password, with the first colon between them, and
each of the two is percent-encoded. Whatever a URL with credentials is made of, references included,
its request is for the URL without them and sends the user and the password that they stand for,
unless an option gives others. So a user and a password that are encoded into a URL come out as they
were.
-/

namespace CurlScribe
namespace Authority

/-! ## What user information stands for -/

/-- The word that percent-encoded atoms stand for: each run of literal text is decoded, and the
references between the runs stay where they are. -/
def decoded (as : List Atom) : Word := (Word.ofAtoms as).mapText Percent.decode

/-- Encoded text stands for the text. -/
theorem decoded_encode {keep : Char → Bool} (hkeep : keep '%' = false) (t : Text) :
    decoded ((Percent.encode keep t).map .char) = Word.ofText t := by
  have hnil : Percent.decode [] = [] := Percent.decode_encode hkeep []
  rw [decoded, ← Word.ofText_eq_ofAtoms, Word.mapText_ofText hnil, Percent.decode_encode hkeep]

namespace CredentialUrl

/-- The user information up to its first colon. -/
def user (u : CredentialUrl) : List Atom := u.userinfo.takeWhile (· != .char ':')

/-- The user information behind its first colon, nothing if it has none. -/
def password (u : CredentialUrl) : List Atom := (u.userinfo.dropWhile (· != .char ':')).tail

theorem credentials_of_userinfo {u : CredentialUrl} {user password : List Atom}
    (h : u.userinfo = user ++ .char ':' :: password) (huser : .char ':' ∉ user) :
    u.credentials = ⟨decoded user, decoded password⟩ := by
  rw [credentials, credentialsOf, h, Word.splitOnce_append password huser]
  rfl

/-- The credentials are what the two halves of the user information stand for. -/
theorem credentials_eq (u : CredentialUrl) :
    u.credentials = ⟨decoded u.user, decoded u.password⟩ := by
  unfold user password
  by_cases hcolon : Atom.char ':' ∈ u.userinfo
  · obtain ⟨front, back, hinfo, hfront⟩ := List.eq_append_cons_of_mem hcolon
    obtain ⟨htake, hdrop⟩ :
        (front ++ .char ':' :: back).takeWhile (· != .char ':') = front ∧
          (front ++ .char ':' :: back).dropWhile (· != .char ':') = .char ':' :: back := by
      apply Text.takeWhile_dropWhile_append
      · intro a ha
        simpa using ne_of_mem_of_not_mem ha hfront
      · intro a more h
        simp [← (List.cons.inj h).1]
    rw [credentials_of_userinfo hinfo hfront, hinfo, htake, hdrop, List.tail_cons]
  · have hall : ∀ a ∈ u.userinfo, (a != Atom.char ':') = true := by
      intro a ha
      simpa using ne_of_mem_of_not_mem ha hcolon
    rw [credentials, credentialsOf, Word.splitOnce_of_not_mem hcolon,
      List.takeWhile_eq_self_iff.2 hall, List.dropWhile_eq_nil_iff.2 hall]
    rfl

/-! ### User information that is made of texts -/

/-- A user and a password as user information, with all but their unreserved characters escaped. -/
def escaped (user password : Text) : Text :=
  Percent.encode FormEncoding.isUnreserved user ++
    ':' :: Percent.encode FormEncoding.isUnreserved password

/-- An escaped text has no character that means something in a URL. -/
theorem not_special_of_mem_encode {t : Text} {c : Char}
    (h : c ∈ Percent.encode FormEncoding.isUnreserved t) : c ≠ ':' ∧ isEnd c = false := by
  constructor
  · rintro rfl
    exact absurd (FormEncoding.mem_escaped h) (by decide)
  · rw [← Bool.not_eq_true]
    intro hend
    rcases FormEncoding.mem_escaped h with rfl | hkept
    · cases hend
    · simp only [isEnd, Bool.or_eq_true, beq_iff_eq] at hend
      rcases hend with (rfl | rfl) | rfl
      · exact absurd hkept (by decide)
      · exact absurd hkept (by decide)
      · exact absurd hkept (by decide)

theorem isEnd_of_mem_escaped {user password : Text} {c : Char} (h : c ∈ escaped user password) :
    isEnd c = false := by
  rcases List.mem_append.1 h with h | h
  · exact (not_special_of_mem_encode h).2
  · rcases List.mem_cons.1 h with rfl | h
    · rfl
    · exact (not_special_of_mem_encode h).2

/-- The URL with a user and a password in place of its user information. -/
def withEscaped (u : CredentialUrl) (user password : Text) : CredentialUrl :=
  { u with
    userinfo := (escaped user password).map .char
    userinfo_inside := by
      intro a ha
      obtain ⟨c, hc, rfl⟩ := List.mem_map.1 ha
      exact isEnd_of_mem_escaped hc }

theorem credentials_withEscaped (u : CredentialUrl) (user password : Text) :
    (u.withEscaped user password).credentials = ⟨Word.ofText user, Word.ofText password⟩ := by
  have hkeep : FormEncoding.isUnreserved '%' = false := by decide
  have hinfo : (u.withEscaped user password).userinfo =
      (Percent.encode FormEncoding.isUnreserved user).map .char ++
        .char ':' :: (Percent.encode FormEncoding.isUnreserved password).map .char := by
    simp [withEscaped, escaped]
  have hcolon : Atom.char ':' ∉ (Percent.encode FormEncoding.isUnreserved user).map .char := by
    intro hmem
    have hmem : ':' ∈ Percent.encode FormEncoding.isUnreserved user := by simpa using hmem
    exact (not_special_of_mem_encode hmem).1 rfl
  rw [credentials_of_userinfo hinfo hcolon, decoded_encode hkeep, decoded_encode hkeep]

end CredentialUrl

/-! ## What is requested -/

/-- What comes of the URL `given`. Whatever settings it is the last URL of, if they neither upload a
file nor send data in the query: the request is for `requested`, with the credentials of the last
user option, or with `found` if there is no such option. Settings without content do make a
request. -/
def Yields (given requested : List Atom) (found : Credentials) : Prop :=
  ∀ settings : List Setting, Draft.lastWord? .url settings = some (Word.ofAtoms given) →
    Draft.lastWord? .uploadFile settings = none → Draft.isOn .get settings = false →
      ((∀ s ∈ settings, s.asksForEmptyMethod = false ∧ s.dataItem? = none ∧ s.formItem? = none) →
        ∃ r, (Request.ofSettings settings).result = .ok r) ∧
      ∀ r, (Request.ofSettings settings).result = .ok r →
        r.url = Word.ofAtoms requested ∧
          r.credentials =
            some (((Draft.lastWord? .user settings).map Setting.credentialsOf).getD found)

theorem yields_of_credentials (u : CredentialUrl) :
    Yields u.atoms u.stripped u.credentials := by
  intro settings hurl hupload hquery
  constructor
  · intro hquiet
    have hdata : (Draft.ofSettings settings).data = [] :=
      List.filterMap_eq_nil_iff.2 fun s hs => (hquiet s hs).2.1
    have hforms : (Draft.ofSettings settings).forms = [] :=
      List.filterMap_eq_nil_iff.2 fun s hs => (hquiet s hs).2.2
    -- without data and form fields there is no body that could fail
    have hbody : Body.ofData (Draft.ofSettings settings).data
        (Headers.get? (Draft.ofSettings settings).headers "Content-Type".toList) = .ok .empty := by
      rw [hdata]
      rfl
    obtain ⟨r, hr, -⟩ := Draft.request_of_ofData hurl hupload hquery hforms (by simp [hdata]) hbody
    exact ⟨r, Request.ofSettings_of_draft (fun s hs => (hquiet s hs).1) hr⟩
  · intro r hr
    obtain ⟨given, hgiven, hr, hcredentials⟩ := url_credentials_of_ofSettings hupload hquery hr
    obtain rfl := Option.some.inj (hurl.symm.trans hgiven)
    have hresolve := resolve_of_atoms (Word.isNormal_ofAtoms u.atoms) (Word.atoms_ofAtoms u.atoms)
    rw [hresolve] at hr hcredentials
    refine ⟨hr, hcredentials.trans ?_⟩
    show Option.or ((Draft.lastWord? .user settings).map Setting.credentialsOf) _ = _
    cases (Draft.lastWord? .user settings).map Setting.credentialsOf with
    | none => rfl
    | some c => rfl

/-- A URL with credentials is requested without them, and its credentials are what the two halves of
its user information stand for. Any user and password can be given so, once escaped. -/
theorem credentials_recovered (u : CredentialUrl) :
    Yields u.atoms u.stripped ⟨decoded u.user, decoded u.password⟩ ∧
      ∀ user password, Yields (u.withEscaped user password).atoms u.stripped
        ⟨Word.ofText user, Word.ofText password⟩ := by
  constructor
  · rw [← u.credentials_eq]
    exact yields_of_credentials u
  · intro user password
    rw [← u.credentials_withEscaped user password]
    exact yields_of_credentials (u.withEscaped user password)

/-- User information with an `@`, escaped bytes and a reference in front of a host with a query: its
parts are the credentials, unless an option gives others, and the URL loses it either way. -/
theorem credentials_recovered_reference :
    let reference := Word.ofReference ⟨"X".toList, true⟩
    let url := Setting.positional
      (Word.ofString "ftp://a@b:p%2Fw" ++ reference ++ Word.ofString "%41@host?c@d")
    let user : Setting := ⟨.user, "-u".toList, some (Word.ofString "me:s:t"), false⟩
    (∃ r, (Request.ofSettings [url]).result = .ok r ∧ r.url = Word.ofString "ftp://host?c@d" ∧
      r.credentials =
        some ⟨Word.ofString "a@b", Word.ofString "p/w" ++ reference ++ Word.ofString "A"⟩) ∧
      ∃ r, (Request.ofSettings [url, user]).result = .ok r ∧
        r.url = Word.ofString "ftp://host?c@d" ∧
        r.credentials = some ⟨Word.ofString "me", Word.ofString "s:t"⟩ := by
  intro reference url user
  let u : CredentialUrl := {
    scheme := "ftp".toList.map .char
    userinfo := "a@b:p%2Fw".toList.map .char ++ [.reference ⟨"X".toList, true⟩] ++
      "%41".toList.map .char
    host := "host".toList.map .char
    tail := "?c@d".toList.map .char
    scheme_avoids := by decide
    userinfo_inside := by decide
    host_inside := by decide
    host_avoids := by decide
    tail_outside := by decide }
  obtain ⟨hyields, -⟩ := credentials_recovered u
  have hstripped : Word.ofAtoms u.stripped = Word.ofString "ftp://host?c@d" := by decide +kernel
  have hfound : (⟨decoded u.user, decoded u.password⟩ : Credentials) =
      ⟨Word.ofString "a@b", Word.ofString "p/w" ++ reference ++ Word.ofString "A"⟩ := by
    decide +kernel
  rw [hfound] at hyields
  constructor
  · obtain ⟨hmakes, hmade⟩ := hyields [url] (by decide +kernel) (by decide) (by decide)
    obtain ⟨r, hr⟩ := hmakes (by decide +kernel)
    obtain ⟨hurl, hcredentials⟩ := hmade r hr
    exact ⟨r, hr, hurl.trans hstripped, hcredentials⟩
  · obtain ⟨hmakes, hmade⟩ := hyields [url, user] (by decide +kernel) (by decide) (by decide)
    obtain ⟨r, hr⟩ := hmakes (by decide +kernel)
    obtain ⟨hurl, hcredentials⟩ := hmade r hr
    exact ⟨r, hr, hurl.trans hstripped, hcredentials⟩

end Authority
end CurlScribe
