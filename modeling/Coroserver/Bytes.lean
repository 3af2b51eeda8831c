/-! Byte strings. -/

namespace Coroserver

abbrev Bytes := List UInt8

def ascii (text : String) : Bytes := text.toList.map Char.toUInt8

end Coroserver
