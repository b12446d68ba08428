/-
  One file that is both the track file and the debug log.

  Each side goes on as if the file were its own. The track is written anew or gets a line at the
  end of the file. The log goes on where its last message ended, over whatever stands there.
  So what is in the file in between need not be text, and it is kept as bytes.
-/
import Cadence.Text.Bytes
import Cadence.Track

namespace Cadence

structure SharedFile where
  bytes : ByteArray
  /-- Where the next message of the log goes; without a position, to the end. -/
  position : Option Nat

namespace SharedFile

/-- The file when the log has just been started. -/
def fresh : SharedFile := { bytes := .empty, position := some 0 }

/-- The file with the log opened again to be continued. -/
def reopened (f : SharedFile) : SharedFile := { f with position := none }

/-- What the track wrote. -/
def track (f : SharedFile) : Track.Write → SharedFile
  | .anew text => { f with bytes := text.toUTF8 }
  | .more text => { f with bytes := f.bytes ++ text.toUTF8 }

/-- A text that the log writes. -/
def log : SharedFile → String → SharedFile
  | ⟨bytes, none⟩, text => ⟨bytes ++ text.toUTF8, none⟩
  | ⟨bytes, some n⟩, text =>
      ⟨Text.overwrite bytes n text.toUTF8, some (n + text.utf8ByteSize)⟩

def text (f : SharedFile) : String := Text.ofBytes f.bytes

end SharedFile

end Cadence
