namespace Apportion.Version

def version : String := "0.1.0"

end Apportion.Version
