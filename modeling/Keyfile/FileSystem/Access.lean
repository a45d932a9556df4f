/-!
# Why access fails

The reasons for which the system refuses to open, read or create something, in its own words.
-/
namespace Keyfile

inductive AccessError where
  /-- A name on the way does not exist, or the path is empty. -/
  | notFound
  | alreadyExists
  /-- Something other than a directory is used as one. -/
  | notDirectory
  | isDirectory
  /-- A name has more than 255 bytes, or a path more than 4095. -/
  | nameTooLong
  /-- More than forty links would have to be followed. -/
  | tooManyLinks
  /-- The path holds a zero byte and is not passed to the system. -/
  | zeroByte
  /-- What was read is not text. -/
  | notText
  deriving DecidableEq, Repr

def AccessError.message : AccessError → String
  | notFound => "No such file or directory (os error 2)"
  | alreadyExists => "File exists (os error 17)"
  | notDirectory => "Not a directory (os error 20)"
  | isDirectory => "Is a directory (os error 21)"
  | nameTooLong => "File name too long (os error 36)"
  | tooManyLinks => "Too many levels of symbolic links (os error 40)"
  | zeroByte => "file name contained an unexpected NUL byte"
  | notText => "stream did not contain valid UTF-8"

end Keyfile
