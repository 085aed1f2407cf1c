import GoImage.Error

/-!
Faults that cost a part of the result and leave the rest.
-/

namespace GoImage

inductive Warning
  | buildInfo (cause : Error)
  | functions (cause : Error)
  | files (cause : Error)
  | typelinks (cause : Error)
  | itablinks (cause : Error)
deriving Repr, DecidableEq

def Warning.message : Warning → String
  | buildInfo cause => "Build info incomplete: " ++ cause.message
  | functions cause => "Function table unusable: " ++ cause.message
  | files cause => "File table unusable: " ++ cause.message
  | typelinks cause => "Unable to read typelinks: " ++ cause.message
  | itablinks cause => "Unable to read itablinks: " ++ cause.message

end GoImage
