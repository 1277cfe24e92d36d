import Strata.Files.Tree
import Strata.Grammar.ProfileFile
import Strata.Log.Journal
import Strata.Settings.Preferences
import Strata.Text.Utf8

/-!
# Loading profiles

A profile that is declared in a file is read from the disk when it is asked for.
-/

namespace Strata

def checkProfile (disk : Disk) (path : String) : Except ProfileError Profile :=
  match disk.read path with
  | .error e => .error (.unreadable path e.message)
  | .ok content =>
    match decodeUtf8 content.toList with
    | .error _ => .error (.unreadable path "stream did not contain valid UTF-8")
    | .ok text => Profile.ofToml text

def loadProfile (disk : Disk) (path : String) : Told (Except ProfileError Profile) :=
  match checkProfile disk path with
  | .error e => .ofNotices [] (.error e)
  | .ok profile =>
    .ofNotices [.success "I031" "Language profile loaded" [
      ("profile", profile.name), ("path", path),
      ("keywords", toString profile.keywords.words.length),
      ("symbols", toString profile.symbols.entries.length)]] (.ok profile)

/-- Loads the profile that the user prefers: the one of a file, or the one of C++. -/
def preferredProfile (disk : Disk) (preferences : RunPreferences) :
    Told (Except ProfileError Profile) :=
  match preferences.profilePath with
  | some path => loadProfile disk path
  | none => .ofNotices [] (.ok .cpp)

end Strata
