import HfmcBot.Foundation.Separator

/-!
# Connection strings in logs

`redacted_dsn`: what is between the last colon before the last at sign and that at sign is
replaced by three stars.  The search for the colon takes one inside the password for the one
in front of it.

* `redactedDsn_cut`: what is shown of any text with an at sign and a colon before it;
* `redactedDsn_shows`: a password is shown up to its own last colon;
* `hidesPasswords_iff`: two passwords look alike exactly when neither has a colon;
* `pgConnectError_shows`: what a failed connection brings into the boot log.
-/

namespace HfmcBot

open Foundation

/-- Redact a Postgres connection string for logs.  Unknown shapes pass through. -/
def redactedDsn (dsn : String) : String :=
  match splitAtLast '@' dsn.toList with
  | none => dsn
  | some (head, tail) =>
      match splitAtLast ':' head with
      | none => dsn
      | some (shown, _) =>
          if "://".toList <:+: shown then String.ofList shown ++ ":***" ++ String.ofList tail
          else dsn

/-- The text of a failed connection. -/
def pgConnectError (dsn driver : String) : String :=
  "pg connect " ++ redactedDsn dsn ++ " failed: " ++ driver

/-- The shape of a connection string with a password. -/
def dsnWith (scheme user password host : String) : String :=
  scheme ++ "://" ++ user ++ ":" ++ password ++ "@" ++ host

/-- The cut, for any text before the colon that has the scheme. -/
theorem redactedDsn_cut {shown hidden host : String} (hhost : '@' ∉ host.toList)
    (hcolon : ':' ∉ hidden.toList) (hscheme : "://".toList <:+: shown.toList) :
    redactedDsn (shown ++ ":" ++ hidden ++ "@" ++ host) = shown ++ ":***@" ++ host := by
  have hat : splitAtLast '@' (shown ++ ":" ++ hidden ++ "@" ++ host).toList =
      some (shown.toList ++ ':' :: hidden.toList, '@' :: host.toList) := by
    have htext : (shown ++ ":" ++ hidden ++ "@" ++ host).toList =
        (shown.toList ++ ':' :: hidden.toList) ++ '@' :: host.toList := by
      simp
    rw [htext]
    exact splitAtLast_append hhost
  unfold redactedDsn
  rw [hat]
  dsimp only
  rw [splitAtLast_append hcolon]
  dsimp only
  rw [if_pos hscheme, ← String.toList_inj]
  simp

theorem shown_has_scheme (scheme rest : String) :
    "://".toList <:+: (scheme ++ "://" ++ rest).toList :=
  ⟨scheme.toList, rest.toList, by simp⟩

/-- A password without a colon is hidden. -/
theorem redactedDsn_hides {scheme user password host : String} (hhost : '@' ∉ host.toList)
    (hcolon : ':' ∉ password.toList) :
    redactedDsn (dsnWith scheme user password host) =
      scheme ++ "://" ++ user ++ ":***@" ++ host :=
  redactedDsn_cut hhost hcolon (shown_has_scheme scheme user)

/-- Of a password with a colon everything before the last one is shown. -/
theorem redactedDsn_shows {scheme user first last host : String} (hhost : '@' ∉ host.toList)
    (hcolon : ':' ∉ last.toList) :
    redactedDsn (dsnWith scheme user (first ++ ":" ++ last) host) =
      scheme ++ "://" ++ user ++ ":" ++ first ++ ":***@" ++ host := by
  have hshape : dsnWith scheme user (first ++ ":" ++ last) host =
      (scheme ++ "://" ++ (user ++ ":" ++ first)) ++ ":" ++ last ++ "@" ++ host := by
    simp only [dsnWith, String.append_assoc]
  rw [hshape, redactedDsn_cut hhost hcolon (shown_has_scheme scheme _)]
  simp only [String.append_assoc]

/-- The text is the redacted one exactly when the password has no colon. -/
theorem redactedDsn_eq_iff {scheme user password host : String} (hhost : '@' ∉ host.toList) :
    redactedDsn (dsnWith scheme user password host) =
      scheme ++ "://" ++ user ++ ":***@" ++ host ↔ ':' ∉ password.toList := by
  constructor
  · intro hredacted hcolon
    obtain ⟨first, last, hpassword, hlast⟩ := exists_last hcolon
    have hparts : password = String.ofList first ++ ":" ++ String.ofList last := by
      rw [← String.toList_inj]
      simpa using hpassword
    rw [hparts, redactedDsn_shows hhost (by simpa using hlast)] at hredacted
    -- the shown prefix and its colon make the text longer
    have hlength := congrArg String.length hredacted
    simp only [String.length_append] at hlength
    have hone : ":".length = 1 := rfl
    omega
  · exact redactedDsn_hides hhost

/-- Two passwords look alike in the logs, and like three stars. -/
def HidesPasswords (scheme user host password₁ password₂ : String) : Prop :=
  redactedDsn (dsnWith scheme user password₁ host) =
      redactedDsn (dsnWith scheme user password₂ host) ∧
    redactedDsn (dsnWith scheme user password₁ host) = scheme ++ "://" ++ user ++ ":***@" ++ host

/-- The redaction hides two passwords exactly when neither has a colon, whatever the scheme,
the user and the passwords otherwise are. -/
theorem hidesPasswords_iff {scheme user host password₁ password₂ : String}
    (hhost : '@' ∉ host.toList) :
    HidesPasswords scheme user host password₁ password₂ ↔
      ':' ∉ password₁.toList ∧ ':' ∉ password₂.toList := by
  rw [← @redactedDsn_eq_iff scheme user password₁ host hhost,
    ← @redactedDsn_eq_iff scheme user password₂ host hhost]
  constructor
  · rintro ⟨hsame, hstars⟩
    exact ⟨hstars, hsame.symm.trans hstars⟩
  · rintro ⟨hfirst, hsecond⟩
    exact ⟨hfirst.trans hsecond.symm, hfirst⟩

/-- The two passwords `s3cret` and `p%40ss`. -/
theorem hidesPasswords_plain :
    HidesPasswords "postgres" "bot" "db.internal:5432/hfmc" "s3cret" "p%40ss" :=
  (hidesPasswords_iff (by decide)).mpr (by decide)

/-- The password `pa:ss` is shown up to its colon. -/
theorem hidesPasswords_lost :
    redactedDsn "postgres://bot:pa:ss@db.internal/hfmc" =
        "postgres://bot:pa:***@db.internal/hfmc" ∧
      ¬ HidesPasswords "postgres" "bot" "db.internal/hfmc" "pa:ss" "s3:ss" := by
  unfold HidesPasswords
  decide +kernel

/-! ## The boot log -/

/-- The error of a failed connection carries what the redaction shows. -/
theorem pgConnectError_shows {scheme user first last host driver : String}
    (hhost : '@' ∉ host.toList) (hcolon : ':' ∉ last.toList) :
    first.toList <:+:
      (pgConnectError (dsnWith scheme user (first ++ ":" ++ last) host) driver).toList := by
  rw [pgConnectError, redactedDsn_shows hhost hcolon]
  refine ⟨("pg connect " ++ scheme ++ "://" ++ user ++ ":").toList,
    (":***@" ++ host ++ " failed: " ++ driver).toList, ?_⟩
  simp

end HfmcBot
